import Vpopmail.Base64RoundTrip
import Vpopmail.Names

/-! # Salted digests

The SMD5 passwords of `vopenldap.c`. The decoder is run over the scheme as well, whose four
letters make up a group of their own, so that the salt is found behind three more bytes.
-/

namespace Vpopmail.Openldap

open Text Chunks Base64

/-! ## The scheme -/

inductive SchemeCode
  | success
  | cryptFailed
  | badChar
  | nullPointer
  | internalBufferExceeded
  deriving DecidableEq

def SchemeCode.number : SchemeCode → Int
  | success => 0
  | cryptFailed => -18
  | badChar => -20
  | nullPointer => -33
  | internalBufferExceeded => -68

/-- The results of the base64 functions under the same names. -/
def SchemeCode.ofBase64 : Code → SchemeCode
  | .success => .success
  | .badChar => .badChar
  | .internalBufferExceeded => .internalBufferExceeded

abbrev Digest := { digest : List Byte // digest.length = 16 }

abbrev Salt := { salt : List Byte // salt.length = 4 }

def scheme : List Char := "{SMD5}".toList

/-- The buffer of `auth_crypt` for passwords. -/
def epassSize : Nat := 512

/-- The buffer of `auth_crypt` for salts. -/
def saltSize : Nat := 12

/-- The buffer for the decoded password. -/
def decodeSize : Nat := 80

/-- The loop that ends the string at the first line break. -/
def stripNewlines : List Char → Except Fault (List Char)
  | [] => .error .outOfBounds
  | p :: epass =>
      if p = nul then .ok (p :: epass)
      else if p = '\r' ∨ p = '\n' then .ok (nul :: epass)
      else (stripNewlines epass).map (p :: ·)

/-- `md5salt`: the first four bytes of the salt, or random letters. -/
def md5Salt (letters : Salt) : Option (List Byte) → Except Fault (List Byte)
  | none => .ok letters.val
  | some salt => if 4 ≤ salt.length then .ok (salt.take 4) else .error .outOfBounds

def strcmp : List Char → List Char → Int
  | [], [] => 0
  | [], _ :: _ => -1
  | _ :: _, [] => 1
  | p :: left, q :: right =>
      if p = q then strcmp left right else if p.toNat < q.toNat then -1 else 1

section Functions

-- What `MD5Final` leaves for the bytes of the updates, and the letters of `randltr`.
variable (md5 : List Byte → Digest) (letters : Salt)

/-- `password_scheme_smd5` for the bytes of a string, with the buffer it leaves. -/
def passwordSchemeSmd5 (passwd : Option (List Byte)) (salt : Option (List Byte))
    (epass : List Char) : Except Fault (SchemeCode × List Char) :=
  match passwd with
  | none => .ok (.nullPointer, epass)
  | some passwd =>
      if epass.length < 45 then .ok (.internalBufferExceeded, epass)
      else
        (md5Salt letters salt).bind fun md5salt =>
          let md5digest := (md5 (passwd ++ md5salt)).val ++ md5salt
          (base64Encode md5digest (epass.length - scheme.length)).bind fun text =>
            if text.1 ≠ .success then .ok (.cryptFailed, scheme ++ text.2)
            else (stripNewlines (scheme ++ text.2)).map fun epass => (.success, epass)

/-- `password_scheme_smd5_decode_salt`, with the buffer it leaves. -/
def passwordSchemeSmd5DecodeSalt (epass : List Char) (salt : List Byte) :
    Except Fault (SchemeCode × List Byte) :=
  if salt.length < 4 then .ok (.internalBufferExceeded, salt)
  else
    (base64Decode base64Init epass decodeSize).map fun buf =>
      if buf.1 ≠ .success then (.ofBase64 buf.1, salt)
      else (.success, (buf.2.drop 19).take 4 ++ List.replicate (salt.length - 4) 0)

/-- `auth_crypt`. -/
def authCrypt (user domain : Option (List Char)) (clearPass : Option (List Byte))
    (pwPasswd : Option (List Char)) : Except Fault Int :=
  match user, domain, clearPass, pwPasswd with
  | some _, some _, some clearPass, some pwPasswd =>
      if sameText (pwPasswd.take scheme.length) scheme then
        (passwordSchemeSmd5DecodeSalt pwPasswd (List.replicate saltSize 0)).bind fun salt =>
          if salt.1 ≠ .success then .ok salt.1.number
          else
            (passwordSchemeSmd5 md5 letters (some clearPass) (some salt.2)
              (List.replicate epassSize nul)).map fun epass =>
                if epass.1 ≠ .success then -1 else strcmp (cstring epass.2) pwPasswd
      else .ok (-1)
  | _, _, _, _ => .ok (-1)

end Functions

theorem strcmp_eq_zero {left right : List Char} : strcmp left right = 0 ↔ left = right := by
  induction left generalizing right with
  | nil => cases right <;> simp [strcmp]
  | cons p left induction =>
      cases right with
      | nil => simp [strcmp]
      | cons q right =>
          rw [strcmp]
          by_cases same : p = q
          · rw [if_pos same, induction, same, List.cons.injEq, eq_self, true_and]
          · have other : (if p.toNat < q.toNat then (-1 : Int) else 1) ≠ 0 := by
              split <;> decide
            rw [if_neg same, List.cons.injEq]
            exact iff_of_false other fun equal => same equal.1

/-! ## Encoded digests -/

/-- A character of an encoded text without line breaks. -/
def Coded (p : Char) : Prop := p ∈ alphabet ∨ p = '='

theorem coded_letter {sextet : Nat} (small : sextet < 64) : Coded (letter sextet) :=
  .inl (letter_mem small)

/-- The text of some bytes that ends in a padded group, all in one line. -/
structure Padded (body : List Char) (size : Nat) : Prop where
  length : body.length = 4 * (size / 3 + 1)
  pad : '=' ∈ body
  coded : ∀ p ∈ body, Coded p

theorem encodedChunks_padded (cols : Nat) (inbuf : List Byte)
    (line : 3 * cols + 4 * inbuf.length < 216) (begun : inbuf.length % 3 ≠ 0)
    (behind : 0 < cols ∨ 2 < inbuf.length) :
    ∃ body, (encodedChunks cols inbuf).flatten = body ++ lineEnd ∧ Padded body inbuf.length := by
  have pad : Coded '=' := .inr rfl
  induction cols, inbuf using encodedChunks.induct with
  | case1 cols => exact absurd rfl begun
  | case2 cols a =>
      have inLine : 0 < cols := by simpa using behind
      obtain ⟨first, second, _, _⟩ := sextets_lt (group_lt a 0 0)
      rw [encodedChunks, if_pos inLine]
      refine ⟨[letter _, letter _, '=', '='], rfl, by simp, by simp, ?_⟩
      simp only [List.forall_mem_cons]
      exact ⟨coded_letter first, coded_letter second, pad, pad, List.forall_mem_nil _⟩
  | case3 cols a b =>
      have inLine : 0 < cols := by simpa using behind
      obtain ⟨first, second, third, _⟩ := sextets_lt (group_lt a b 0)
      rw [encodedChunks, if_pos inLine]
      refine ⟨[letter _, letter _, letter _, '='], rfl, by simp, by simp, ?_⟩
      simp only [List.forall_mem_cons]
      exact ⟨coded_letter first, coded_letter second, coded_letter third, pad,
        List.forall_mem_nil _⟩
  | case4 cols a b c inbuf full notFull =>
      obtain ⟨first, second, third, fourth⟩ := sextets_lt (group_lt a b c)
      simp only [List.length_cons] at line begun
      have sameLine : cols + 4 ≠ 72 := by omega
      rcases notFull (by omega) (by omega) (.inl (Nat.succ_pos _)) with ⟨body, written, padded⟩
      rw [encodedChunks, if_neg sameLine, List.flatten_cons, written, ← List.append_assoc]
      refine ⟨_, rfl, ?_, List.mem_append_right _ padded.pad, ?_⟩
      · rw [List.length_append, padded.length]
        simp only [quad, List.length_cons, List.length_nil]
        omega
      · intro p member
        rcases List.mem_append.mp member with group | later
        · have letters : ∀ p ∈ quad ((a.toNat <<< 8 + b.toNat) <<< 8 + c.toNat), Coded p := by
            simp only [quad, List.forall_mem_cons]
            exact ⟨coded_letter first, coded_letter second, coded_letter third,
              coded_letter fourth, List.forall_mem_nil _⟩
          exact letters p group
        · exact padded.coded p later

/-- What stands behind padding has no value. -/
theorem values_padded {body : List Char} (b : Tables) (pad : '=' ∈ body) (rest : List Char) :
    values b (body ++ rest) = values b body ∧
      (body ++ rest).contains '=' = body.contains '=' := by
  constructor
  · rcases free_or_eq_append_cons '=' body with missing | ⟨front, behind, free, rfl⟩
    · exact absurd pad missing
    · rw [values, values, List.append_assoc, List.cons_append, takeWhile_ne_append_cons free,
        takeWhile_ne_append_cons free]
  · rw [List.contains_eq_mem, List.contains_eq_mem, decide_eq_decide, List.mem_append]
    exact or_iff_left_of_imp fun _ => pad

theorem values_append {front : List Char} (b : Tables) (free : Free '=' front)
    (data : List Char) : values b (front ++ data) = values b front ++ values b data := by
  have kept : ∀ p ∈ front, decide (p ≠ '=') = true := by
    intro p member
    exact decide_eq_true fun equal => free (equal ▸ member)
  rw [values, values, values, List.takeWhile_append_of_pos kept,
    List.takeWhile_eq_self_iff.mpr kept, List.filter_append, List.map_append]

/-- The bytes that the letters of the scheme stand for. -/
def schemeBytes : List Byte := triple (bitsOf [18, 12, 3] + 57)

theorem values_scheme (data : List Char) :
    values base64Init (scheme ++ data) = 18 :: 12 :: 3 :: 57 :: values base64Init data := by
  have own : values base64Init scheme = [18, 12, 3, 57] := by decide +kernel
  rw [values_append base64Init (by decide) data, own]
  rfl

/-- Decoding a password without line breaks, scheme included. -/
theorem decoded_scheme {body : List Char} {inbuf : List Byte} (pad : '=' ∈ body)
    (written : encoded inbuf = body ++ lineEnd) :
    decoded base64Init (scheme ++ body) = schemeBytes ++ inbuf ∧
      ending base64Init (scheme ++ body) = .success := by
  have whole := decoded_encoded inbuf
  have cutOff := values_padded base64Init pad lineEnd
  have behind : (scheme ++ body).contains '=' = body.contains '=' := by
    rw [List.contains_eq_mem, List.contains_eq_mem, decide_eq_decide, List.mem_append]
    exact or_iff_right_of_imp fun _ => pad
  rw [written, decoded, ending, cutOff.1, cutOff.2] at whole
  rw [decoded, ending, behind, values_scheme, decodedChunks, List.flatten_cons, whole.1]
  exact ⟨rfl, whole.2⟩

/-! ## Stored passwords -/

theorem stripNewlines_append {front : List Char}
    (plain : ∀ p ∈ front, p ≠ nul ∧ p ≠ '\r' ∧ p ≠ '\n') (rest : List Char) :
    stripNewlines (front ++ '\r' :: rest) = .ok (front ++ nul :: rest) := by
  induction front with
  | nil => rfl
  | cons p front induction =>
      rcases plain p List.mem_cons_self with ⟨terminator, carriage, newline⟩
      have later := induction fun q member => plain q (List.mem_cons_of_mem _ member)
      rw [List.cons_append, stripNewlines, if_neg terminator,
        if_neg (not_or.mpr ⟨carriage, newline⟩), later]
      rfl

theorem plain_of_all {text : List Char}
    (all : text.all (fun q => q ≠ nul && q ≠ '\r' && q ≠ '\n') = true) :
    ∀ p ∈ text, p ≠ nul ∧ p ≠ '\r' ∧ p ≠ '\n' := by
  intro p member
  have plain := List.all_eq_true.mp all p member
  rw [Bool.and_eq_true, Bool.and_eq_true, decide_eq_true_eq, decide_eq_true_eq,
    decide_eq_true_eq] at plain
  exact ⟨plain.1.1, plain.1.2, plain.2⟩

theorem Coded.plain {p : Char} (coded : Coded p) : p ≠ nul ∧ p ≠ '\r' ∧ p ≠ '\n' := by
  have table := @plain_of_all ('=' :: alphabet) (by decide +kernel)
  rcases coded with letter | pad
  · exact table p (List.mem_cons_of_mem _ letter)
  · exact table p (by rw [pad]; exact List.mem_cons_self)

/-- The digest of a password and a salt, with the salt behind it. -/
def saltedDigest (md5 : List Byte → Digest) (passwd : List Byte) (salt : Salt) : List Byte :=
  (md5 (passwd ++ salt.val)).val ++ salt.val

theorem length_saltedDigest (md5 : List Byte → Digest) (passwd : List Byte) (salt : Salt) :
    (saltedDigest md5 passwd salt).length = 20 := by
  rw [saltedDigest, List.length_append, (md5 _).property, salt.property]

/-- The string that is stored. -/
def storedPassword (md5 : List Byte → Digest) (passwd : List Byte) (salt : Salt) : List Char :=
  scheme ++ (encoded (saltedDigest md5 passwd salt)).take 28

section Stored

variable (md5 : List Byte → Digest) (letters salt : Salt) (passwd : List Byte)

theorem encoded_saltedDigest :
    encoded (saltedDigest md5 passwd salt) =
        (encoded (saltedDigest md5 passwd salt)).take 28 ++ lineEnd ∧
      Padded ((encoded (saltedDigest md5 passwd salt)).take 28) 20 := by
  have size := length_saltedDigest md5 passwd salt
  rcases encodedChunks_padded 0 (saltedDigest md5 passwd salt) (by omega) (by omega)
    (.inr (by omega)) with ⟨body, written, padded⟩
  rw [size] at padded
  have kept : (encoded (saltedDigest md5 passwd salt)).take 28 = body := by
    rw [encoded, written]
    exact List.take_left' padded.length
  rw [kept]
  exact ⟨written, padded⟩

theorem storedPassword_plain :
    ∀ p ∈ storedPassword md5 passwd salt, p ≠ nul ∧ p ≠ '\r' ∧ p ≠ '\n' := by
  have table := @plain_of_all scheme (by decide)
  intro p member
  rcases List.mem_append.mp member with front | body
  · exact table p front
  · exact ((encoded_saltedDigest md5 salt passwd).2.coded p body).plain

/-- `md5salt` of a salt of four bytes or more, or of none. -/
theorem md5Salt_map (salt : Option Salt) (rest : List Byte) :
    md5Salt letters (salt.map fun salt => salt.val ++ rest) = .ok (salt.getD letters).val := by
  cases salt with
  | none => rfl
  | some salt =>
      have enough : 4 ≤ (salt.val ++ rest).length := by
        rw [List.length_append, salt.property]
        omega
      rw [Option.map_some, md5Salt, if_pos enough, List.take_left' salt.property]
      rfl

/-- The encoder fills 30 characters, the last two of which are stripped. -/
theorem encode_stripped {size : Nat} (room : 31 ≤ size) (counted : size ≤ intMax) :
    ∃ text rest, base64Encode (saltedDigest md5 passwd salt) size = .ok (.success, text) ∧
      stripNewlines (scheme ++ text) = .ok (storedPassword md5 passwd salt ++ nul :: rest) := by
  rcases encoded_saltedDigest md5 salt passwd with ⟨split, padded⟩
  have long : (encoded (saltedDigest md5 passwd salt)).length = 30 := by
    rw [split, List.length_append, padded.length]
    rfl
  have enough : (encoded (saltedDigest md5 passwd salt)).length < size := by omega
  rcases base64Encode_reports ⟨size, counted⟩
    (.inr (Nat.le_trans (Nat.le_of_lt enough) counted)) with ⟨outcome, ran, reports⟩
  rw [reports.complete (.inr enough)] at ran
  have text : scheme ++ filled nul size (encoded (saltedDigest md5 passwd salt)) =
      storedPassword md5 passwd salt ++ '\r' :: '\n' :: List.replicate (size - 30) nul := by
    rw [filled, long, split, storedPassword, List.append_assoc, List.append_assoc]
    rfl
  refine ⟨_, '\n' :: List.replicate (size - 30) nul, ran, ?_⟩
  rw [text]
  exact stripNewlines_append (storedPassword_plain md5 salt passwd) _

/-- There is room from 45 bytes on. -/
theorem passwordSchemeSmd5_eq (given : Option Salt) (rest : List Byte) {epass : List Char}
    (room : 45 ≤ epass.length) (counted : epass.length ≤ intMax) :
    ∃ cells, passwordSchemeSmd5 md5 letters (some passwd)
        (given.map fun salt => salt.val ++ rest) epass = .ok (.success, cells) ∧
      cstring cells = storedPassword md5 passwd (given.getD letters) := by
  have size : 31 ≤ epass.length - scheme.length := by
    have prefixed : scheme.length = 6 := rfl
    omega
  have bound : epass.length - scheme.length ≤ intMax := by omega
  rcases encode_stripped md5 (given.getD letters) passwd size bound with
    ⟨text, behind, encodes, strips⟩
  have plain : Free nul (storedPassword md5 passwd (given.getD letters)) :=
    fun member => (storedPassword_plain md5 _ passwd nul member).1 rfl
  refine ⟨_, ?_, cstring_append_nul plain behind⟩
  rw [saltedDigest] at encodes
  rw [passwordSchemeSmd5, if_neg (Nat.not_lt.mpr room), md5Salt_map]
  simp only [Except.bind, encodes]
  rw [if_neg (not_not_intro rfl), strips]
  rfl

/-- The salt is found behind the scheme and the digest. -/
theorem passwordSchemeSmd5DecodeSalt_eq {cells : List Byte} (room : 4 ≤ cells.length) :
    passwordSchemeSmd5DecodeSalt (storedPassword md5 passwd salt) cells =
      .ok (.success, salt.val ++ List.replicate (cells.length - 4) 0) := by
  rcases encoded_saltedDigest md5 salt passwd with ⟨split, padded⟩
  have size := length_saltedDigest md5 passwd salt
  rcases decoded_scheme padded.pad split with ⟨bytes, success⟩
  rcases @base64Decode_reports base64Init ⟨decodeSize, by decide⟩
    (storedPassword md5 passwd salt) (.inl (by decide)) with ⟨outcome, ran, reports⟩
  rw [storedPassword, bytes, success] at reports
  have enough : (schemeBytes ++ saltedDigest md5 passwd salt).length < decodeSize := by
    rw [List.length_append, size]
    decide
  rw [reports.complete (.inr enough)] at ran
  have front : (schemeBytes ++ (md5 (passwd ++ salt.val)).val).length = 19 := by
    rw [List.length_append, (md5 _).property]
    rfl
  have found : ((filled 0 decodeSize (schemeBytes ++ saltedDigest md5 passwd salt)).drop 19).take 4 =
      salt.val := by
    rw [filled, saltedDigest, ← List.append_assoc schemeBytes, List.append_assoc,
      List.drop_left' front, List.take_left' salt.property]
  rw [passwordSchemeSmd5DecodeSalt, if_neg (Nat.not_lt.mpr room), ran]
  simp only [Except.map]
  rw [if_neg (not_not_intro rfl), found]

/-- Another password gives the same string exactly if it has the same digest. -/
theorem storedPassword_inj {other : List Byte} :
    storedPassword md5 other salt = storedPassword md5 passwd salt ↔
      md5 (other ++ salt.val) = md5 (passwd ++ salt.val) := by
  constructor
  · intro same
    have bodies := List.append_cancel_left same
    have texts : encoded (saltedDigest md5 other salt) = encoded (saltedDigest md5 passwd salt) := by
      rw [(encoded_saltedDigest md5 salt other).1, bodies,
        ← (encoded_saltedDigest md5 salt passwd).1]
    have digests := (decoded_encoded (saltedDigest md5 other salt)).1
    rw [texts, (decoded_encoded (saltedDigest md5 passwd salt)).1] at digests
    exact Subtype.ext (List.append_cancel_right digests).symm
  · intro same
    rw [storedPassword, storedPassword, saltedDigest, saltedDigest, same]

end Stored

/-- Encrypting succeeds in every buffer of 45 bytes and more, the salt is recovered, and a
candidate is accepted exactly if it has the digest of the password. -/
theorem smd5_verifies (md5 : List Byte → Digest) (letters : Salt) (passwd : List Byte)
    (given : Option Salt) (epass : List Char) (room : 45 ≤ epass.length)
    (counted : epass.length ≤ intMax) :
    ∃ cells, passwordSchemeSmd5 md5 letters (some passwd) (given.map (·.val)) epass =
        .ok (.success, cells) ∧
      (∀ salt : List Byte, 4 ≤ salt.length →
        passwordSchemeSmd5DecodeSalt (cstring cells) salt = .ok (.success,
          (given.getD letters).val ++ List.replicate (salt.length - 4) 0)) ∧
      ∀ (user domain : List Char) (candidate : List Byte), ∃ result,
        authCrypt md5 letters (some user) (some domain) (some candidate) (some (cstring cells)) =
          .ok result ∧
        (result = 0 ↔ md5 (candidate ++ (given.getD letters).val) =
          md5 (passwd ++ (given.getD letters).val)) := by
  have encrypted := passwordSchemeSmd5_eq md5 letters passwd given [] room counted
  simp only [List.append_nil] at encrypted
  rcases encrypted with ⟨cells, succeeds, stored⟩
  refine ⟨cells, succeeds, ?_, ?_⟩
  · intro salt enough
    rw [stored]
    exact passwordSchemeSmd5DecodeSalt_eq md5 _ passwd enough
  · intro user domain candidate
    have decodes := passwordSchemeSmd5DecodeSalt_eq md5 (given.getD letters) passwd
      (show 4 ≤ (List.replicate saltSize (0 : Byte)).length by decide)
    have size : (List.replicate epassSize nul).length = 512 := List.length_replicate
    have large : 45 ≤ (List.replicate epassSize nul).length := by
      rw [size]
      decide
    have bounded : (List.replicate epassSize nul).length ≤ intMax := by
      rw [size]
      decide
    rcases passwordSchemeSmd5_eq md5 letters candidate (some (given.getD letters))
      (List.replicate ((List.replicate saltSize (0 : Byte)).length - 4) 0) large bounded with
      ⟨other, again, compared⟩
    have known : sameText ((storedPassword md5 passwd (given.getD letters)).take scheme.length)
        scheme = true := by
      rw [storedPassword, List.take_left]
      decide
    refine ⟨strcmp (cstring other) (cstring cells), ?_, ?_⟩
    · rw [stored, authCrypt]
      simp only [known, if_true, decodes, Except.bind]
      rw [if_neg (not_not_intro rfl)]
      simp only [Option.map_some] at again
      rw [again]
      simp only [Except.map]
      rw [if_neg (not_not_intro rfl)]
    · rw [strcmp_eq_zero, stored, compared]
      exact storedPassword_inj md5 _ passwd

/-! ## A sample password -/

/-- The first bytes of a text in the place of its digest. -/
def firstBytes (text : List Byte) : Digest :=
  ⟨(text ++ List.replicate 16 0).take 16, by simp⟩

/-- A salt with a zero byte, in a buffer of the smallest size. -/
theorem smd5_verifies_zero : ∃ cells, passwordSchemeSmd5 firstBytes ⟨[1, 2, 3, 4], rfl⟩
    (some [97, 98]) (some [65, 0, 66, 255]) (List.replicate 45 nul) = .ok (.success, cells) ∧
    ∃ result, authCrypt firstBytes ⟨[1, 2, 3, 4], rfl⟩ (some ['a']) (some ['b']) (some [97])
      (some (cstring cells)) = .ok result ∧ result ≠ 0 := by
  rcases smd5_verifies firstBytes ⟨[1, 2, 3, 4], rfl⟩ [97, 98] (some ⟨[65, 0, 66, 255], rfl⟩)
    (List.replicate 45 nul) (by decide) (by decide) with ⟨cells, succeeds, _, verifies⟩
  rcases verifies ['a'] ['b'] [97] with ⟨result, ran, zero⟩
  refine ⟨cells, succeeds, result, ran, ?_⟩
  rw [ne_eq, zero]
  decide

end Vpopmail.Openldap

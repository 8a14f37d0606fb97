import Mathlib.Algebra.GroupWithZero.Nat
import Vpopmail.Foundation.Chunks
import Vpopmail.Foundation.Text

/-! # Base64

The encoder and the decoder of `base64.c`. `bits` collects the bits of one group and stays
below 2 ^ 24; the sizes are `int`s.
-/

namespace Vpopmail.Base64

open Text Chunks

abbrev Byte := BitVec 8

def alphabet : List Char :=
  [ 'A', 'B', 'C', 'D', 'E', 'F', 'G', 'H', 'I', 'J', 'K', 'L', 'M',
    'N', 'O', 'P', 'Q', 'R', 'S', 'T', 'U', 'V', 'W', 'X', 'Y', 'Z',
    'a', 'b', 'c', 'd', 'e', 'f', 'g', 'h', 'i', 'j', 'k', 'l', 'm',
    'n', 'o', 'p', 'q', 'r', 's', 't', 'u', 'v', 'w', 'x', 'y', 'z',
    '0', '1', '2', '3', '4', '5', '6', '7', '8', '9', '+', '/' ]

def letter (sextet : Nat) : Char := alphabet.getD sextet nul

/-- `base64_t`. -/
structure Tables where
  inalphabet : Char → Bool
  decoder : Char → Nat

def Tables.setLetter (i : Nat) (b : Tables) : Tables where
  inalphabet := Function.update b.inalphabet (letter i) true
  decoder := Function.update b.decoder (letter i) i

/-- `base64_init`, which fills the tables from the end of the alphabet. -/
def base64Init : Tables :=
  (List.range alphabet.length).foldr Tables.setLetter ⟨fun _ => false, fun _ => 0⟩

inductive Code
  | success
  | badChar
  | internalBufferExceeded
  deriving DecidableEq

def intMax : Nat := 2 ^ 31 - 1

/-! ## The decoder -/

/-- The bytes of a full group. -/
def triple (bits : Nat) : List Byte :=
  [BitVec.ofNat 8 (bits >>> 16), BitVec.ofNat 8 (bits >>> 8 &&& 0xff),
    BitVec.ofNat 8 (bits &&& 0xff)]

structure Decoding where
  bits : Nat
  charCount : Nat
  written : Written Byte

/-- What follows the loop, which ends at the terminator or at a padding character. -/
def decodeTail (bufsz : Nat) (padded : Bool) (d : Decoding) : Except Fault (Code × List Byte) :=
  if !padded then .ok (if d.charCount ≠ 0 then .badChar else .success, d.written.cells)
  else
    match d.charCount with
    | 1 => .ok (.badChar, d.written.cells)
    | 2 =>
        emit intMax bufsz .internalBufferExceeded [BitVec.ofNat 8 (d.bits >>> 10)] d.written
          fun written => .ok (.success, written.cells)
    | 3 =>
        emit intMax bufsz .internalBufferExceeded
          [BitVec.ofNat 8 (d.bits >>> 16), BitVec.ofNat 8 (d.bits >>> 8 &&& 0xff)] d.written
          fun written => .ok (.success, written.cells)
    | _ => .ok (.success, d.written.cells)

def decodeLoop (b : Tables) (bufsz : Nat) : List Char → Decoding →
    Except Fault (Code × List Byte)
  | [], d => decodeTail bufsz false d
  | p :: data, d =>
      if p = '=' then decodeTail bufsz true d
      else if !b.inalphabet p then decodeLoop b bufsz data d
      else
        let bits := d.bits + b.decoder p
        if d.charCount + 1 = 4 then
          emit intMax bufsz .internalBufferExceeded (triple bits) d.written fun written =>
            decodeLoop b bufsz data ⟨0, 0, written⟩
        else decodeLoop b bufsz data ⟨bits <<< 6, d.charCount + 1, d.written⟩

/-- `base64_decode`, with the buffer it leaves. -/
def base64Decode (b : Tables) (data : List Char) (bufsz : Nat) :
    Except Fault (Code × List Byte) :=
  decodeLoop b bufsz data ⟨0, 0, ⟨0, List.replicate bufsz 0⟩⟩

/-! ## The encoder -/

/-- The letters of a full group. -/
def quad (bits : Nat) : List Char :=
  [letter (bits >>> 18), letter (bits >>> 12 &&& 0x3f), letter (bits >>> 6 &&& 0x3f),
    letter (bits &&& 0x3f)]

structure Encoding where
  bits : Nat
  charCount : Nat
  cols : Nat
  written : Written Char

def lineEnd : List Char := ['\r', '\n']

/-- The line is ended behind the padding, unless the padded group stands alone in it. -/
def encodeEnd (outsz cols : Nat) (written : Written Char) : Except Fault (Code × List Char) :=
  if 0 < cols then
    emit intMax outsz .internalBufferExceeded lineEnd written
      fun written => .ok (.success, written.cells)
  else .ok (.success, written.cells)

/-- What follows the loop. -/
def encodeTail (outsz : Nat) (e : Encoding) : Except Fault (Code × List Char) :=
  if e.charCount = 0 then .ok (.success, e.written.cells)
  else
    let bits := e.bits <<< (16 - 8 * e.charCount)
    emit intMax outsz .internalBufferExceeded
      [letter (bits >>> 18), letter (bits >>> 12 &&& 0x3f)] e.written fun written =>
        emit intMax outsz .internalBufferExceeded
          (if e.charCount = 1 then ['=', '='] else [letter (bits >>> 6 &&& 0x3f), '='])
          written (encodeEnd outsz e.cols)

def encodeLoop (outsz : Nat) : List Byte → Encoding → Except Fault (Code × List Char)
  | [], e => encodeTail outsz e
  | p :: inbuf, e =>
      let bits := e.bits + p.toNat
      if e.charCount + 1 = 3 then
        emit intMax outsz .internalBufferExceeded (quad bits) e.written fun written =>
          if e.cols + 4 = 72 then
            emit intMax outsz .internalBufferExceeded lineEnd written
              fun written => encodeLoop outsz inbuf ⟨0, 0, 0, written⟩
          else encodeLoop outsz inbuf ⟨0, 0, e.cols + 4, written⟩
      else encodeLoop outsz inbuf ⟨bits <<< 8, e.charCount + 1, e.cols, e.written⟩

/-- `base64_encode` of the bytes of `inbuf`, with the buffer it leaves. -/
def base64Encode (inbuf : List Byte) (outsz : Nat) : Except Fault (Code × List Char) :=
  encodeLoop outsz inbuf ⟨0, 0, 0, ⟨0, List.replicate outsz nul⟩⟩

/-! ## What is written -/

/-- The chunks of the encoder. -/
def encodedChunks : (cols : Nat) → List Byte → List (List Char)
  | _, [] => []
  | cols, [a] =>
      let bits := a.toNat <<< 8 <<< 8
      [letter (bits >>> 18), letter (bits >>> 12 &&& 0x3f)] :: ['=', '='] ::
        if 0 < cols then [lineEnd] else []
  | cols, [a, b] =>
      let bits := (a.toNat <<< 8 + b.toNat) <<< 8
      [letter (bits >>> 18), letter (bits >>> 12 &&& 0x3f)] ::
        [letter (bits >>> 6 &&& 0x3f), '='] :: if 0 < cols then [lineEnd] else []
  | cols, a :: b :: c :: inbuf =>
      let bits := (a.toNat <<< 8 + b.toNat) <<< 8 + c.toNat
      quad bits ::
        if cols + 4 = 72 then lineEnd :: encodedChunks 0 inbuf
        else encodedChunks (cols + 4) inbuf

/-- The text of some bytes. -/
def encoded (inbuf : List Byte) : List Char := (encodedChunks 0 inbuf).flatten

/-- The bits of the characters of a group that has been begun. -/
def bitsOf (front : List Nat) : Nat := front.foldl (fun bits value => (bits + value) <<< 6) 0

/-- The chunks of the decoder, for the values of the characters and what follows them. -/
def decodedChunks (padded : Bool) : List Nat → List (List Byte) × Code
  | [] => ([], .success)
  | [_] => ([], .badChar)
  | [p, q] =>
      if padded then ([[BitVec.ofNat 8 (bitsOf [p, q] >>> 10)]], .success)
      else ([], .badChar)
  | [p, q, r] =>
      if padded then
        ([[BitVec.ofNat 8 (bitsOf [p, q, r] >>> 16),
          BitVec.ofNat 8 (bitsOf [p, q, r] >>> 8 &&& 0xff)]], .success)
      else ([], .badChar)
  | p :: q :: r :: s :: values =>
      (triple (bitsOf [p, q, r] + s) :: (decodedChunks padded values).1,
        (decodedChunks padded values).2)

/-- The values of the characters up to the padding. -/
def values (b : Tables) (data : List Char) : List Nat :=
  ((data.takeWhile (· ≠ '=')).filter b.inalphabet).map b.decoder

def decoded (b : Tables) (data : List Char) : List Byte :=
  (decodedChunks (data.contains '=') (values b data)).1.flatten

/-- How the text ends, if there is room. -/
def ending (b : Tables) (data : List Char) : Code :=
  (decodedChunks (data.contains '=') (values b data)).2

end Vpopmail.Base64

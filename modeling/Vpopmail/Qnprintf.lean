import Vpopmail.ControlFiles
import Vpopmail.Foundation.Copying
import Vpopmail.Foundation.Decimal
import Vpopmail.Foundation.SqlLiteral

/-! # `qnprintf`

The `snprintf` for queries: string arguments are escaped, and a query that does not fit
leaves nothing but zeros.
-/

namespace Vpopmail.Qnprintf

open Text Buffer Decimal SqlLiteral

/-- Where C gives the call no meaning, and the conversions that are left to `vsprintf`. -/
inductive Fault
  | memory (fault : Buffer.Fault)
  | overflow
  | argument
  | unread
  deriving DecidableEq

/-- `va_list`: an unsigned argument is fetched like a signed one. -/
inductive Arg
  | int (value : BitVec 32)
  | long (value : BitVec 64)
  | string (text : CString)

structure Output where
  cells : List Char
  position : Nat
  printed : Nat

/-- `ESCAPE_CHARS`. -/
def escapeChars : List Char := ['\'', '"', '\\']

/-- `sizeof(n)`. -/
def numberSize : Nat := 20

def intMax : Nat := 2 ^ 31 - 1

/-- `(int)size`. -/
def intSize (size : BitVec 64) : Int := (size.setWidth 32).toInt

/-- `if (++printed < (int)size) *b++ = char`. -/
def put (size : BitVec 64) (char : Char) (out : Output) : Except Fault Output :=
  if out.printed = intMax then .error .overflow
  else if (out.printed + 1 : Nat) < intSize size then
    ((poke out.position char out.cells).mapError .memory).map fun cells =>
      ⟨cells, out.position + 1, out.printed + 1⟩
  else .ok { out with printed := out.printed + 1 }

/-- The loop over the inserted string. -/
def putString (size : BitVec 64) : List Char → Output → Except Fault Output
  | [], out => .ok out
  | char :: s, out =>
      (if char ∈ escapeChars then put size '\\' out else .ok out).bind fun out =>
        (put size char out).bind (putString size s)

def vaArgInt : List Arg → Except Fault (BitVec 32 × List Arg)
  | .int value :: ap => .ok (value, ap)
  | _ => .error .argument

def vaArgLong : List Arg → Except Fault (BitVec 64 × List Arg)
  | .long value :: ap => .ok (value, ap)
  | _ => .error .argument

def vaArgString : List Arg → Except Fault (List Char × List Arg)
  | .string text :: ap => .ok (text, ap)
  | _ => .error .argument

/-- The string that a conversion inserts, with the format and the arguments behind it. A
numbered argument goes to `vsprintf`, and any other letter leaves `n` unset. -/
def conversion (ap : List Arg) : List Char → Except Fault (List Char × List Char × List Arg)
  | '%' :: f => .ok (['%'], f, ap)
  | 'd' :: f | 'i' :: f => (vaArgInt ap).map fun (value, ap) =>
      (snprintf numberSize (spellInt value.toInt), f, ap)
  | 'u' :: f => (vaArgInt ap).map fun (value, ap) =>
      (snprintf numberSize (spellNat value.toNat), f, ap)
  | 'l' :: 'd' :: f | 'l' :: 'i' :: f => (vaArgLong ap).map fun (value, ap) =>
      (snprintf numberSize (spellInt value.toInt), f, ap)
  | 'l' :: 'u' :: f => (vaArgLong ap).map fun (value, ap) =>
      (snprintf numberSize (spellNat value.toNat), f, ap)
  | 'l' :: _ :: f => .ok (['*'], f, ap)
  | ['l'] => .error (.memory .outOfBounds)
  | 's' :: f => (vaArgString ap).map fun (text, ap) => (text, f, ap)
  | _ => .error .unread

/-- The loop over the format. -/
def scan (size : BitVec 64) :
    (rounds : Nat) → List Char → List Arg → Output → Except Fault Output
  | 0, _, _, out => .ok out
  | _ + 1, [], _, out => .ok out
  | rounds + 1, char :: f, ap, out =>
      if char ≠ '%' then (put size char out).bind (scan size rounds f ap)
      else (conversion ap f).bind fun (s, f, ap) =>
        (putString size s out).bind (scan size rounds f ap)

/-- `memset(buffer, '\0', count)`. -/
def clear (count : Nat) (cells : List Char) : Buffer.Checked (List Char) :=
  if count ≤ cells.length then .ok (List.replicate count nul ++ cells.drop count)
  else .error .outOfBounds

/-- What follows the loop. -/
def finish (size : BitVec 64) (out : Output) : Except Fault (Int × Option (List Char)) :=
  ((poke out.position nul out.cells).mapError .memory).bind fun cells =>
    if intSize size ≤ out.printed then
      ((clear size.toNat cells).mapError .memory).map fun cells => (out.printed, some cells)
    else .ok (out.printed, some cells)

/-- `qnprintf`, with the result and the buffer it leaves. -/
def qnprintf (buffer : Option (List Char)) (size : BitVec 64) (format : List Char)
    (ap : List Arg) : Except Fault (Int × Option (List Char)) :=
  if buffer = none ∧ size ≠ 0 then .ok (-1, buffer)
  else (scan size format.length format ap ⟨buffer.getD [], 0, 0⟩).bind (finish size)

/-! ## What has been printed -/

section Printed

variable {size : BitVec 64} {old : List Char}

/-- How many characters are written at most. -/
def limit (size : BitVec 64) : Nat := (intSize size - 1).toNat

/-- The output after a text. -/
def after (size : BitVec 64) (old text : List Char) : Output where
  cells := text.take (limit size) ++ old.drop (text.take (limit size)).length
  position := (text.take (limit size)).length
  printed := text.length

/-- A text is printed as long as its characters can be counted. -/
def reached (size : BitVec 64) (old text : List Char) : Except Fault Output :=
  if text.length ≤ intMax then .ok (after size old text) else .error .overflow

theorem intSize_le (size : BitVec 64) : intSize size ≤ size.toNat := by
  rw [intSize, BitVec.toInt_eq_toNat_bmod, BitVec.toNat_setWidth, Int.bmod_eq_emod]
  split <;> omega

theorem limit_lt (nonzero : size ≠ 0) : limit size < size.toNat := by
  have bound := intSize_le size
  have positive : size.toNat ≠ 0 := fun zero => nonzero (BitVec.eq_of_toNat_eq zero)
  rw [limit]
  omega

theorem after_printed (text : List Char) : (after size old text).printed = text.length := rfl

theorem after_put (room : old.length = size.toNat) {text : List Char}
    (counted : text.length < intMax) (char : Char) :
    put size char (after size old text) = .ok (after size old (text ++ [char])) := by
  have below : (after size old text).printed ≠ intMax := Nat.ne_of_lt counted
  have bound := intSize_le size
  have length : (text ++ [char]).length = text.length + 1 := List.length_append
  rw [put, if_neg below, after_printed]
  by_cases fits : (text.length + 1 : Nat) < intSize size
  · have short : text.length + 1 ≤ limit size := by
      rw [limit]
      omega
    have inside : text.length < old.length := by
      rw [limit] at short
      omega
    have whole : text.take (limit size) = text := List.take_of_length_le (by omega)
    have longer : (text ++ [char]).take (limit size) = text ++ [char] :=
      List.take_of_length_le (by omega)
    rw [if_pos fits, after, after, whole, longer, List.drop_eq_getElem_cons inside, poke_append,
      length]
    simp only [Except.mapError, Except.map, List.append_assoc, List.singleton_append]
  · have long : limit size ≤ text.length := by
      rw [limit]
      omega
    rw [if_neg fits, after, after, List.take_append_of_le_length long, length]

theorem reached_put (room : old.length = size.toNat) (char : Char) (text : List Char) :
    (reached size old text).bind (put size char) = reached size old (text ++ [char]) := by
  have length : (text ++ [char]).length = text.length + 1 := List.length_append
  rw [reached, reached, length]
  by_cases counted : text.length < intMax
  · rw [if_pos (Nat.le_of_lt counted), if_pos (Nat.succ_le_of_lt counted)]
    exact after_put room counted char
  · rw [if_neg (fun small => counted (Nat.lt_of_succ_le small))]
    by_cases last : text.length = intMax
    · rw [if_pos (Nat.le_of_eq last)]
      exact if_pos last
    · rw [if_neg (by omega)]
      rfl

theorem bind_ok (result : Except Fault Output) : (result.bind fun out => .ok out) = result := by
  cases result <;> rfl

theorem bind_bind {Value : Type} (result : Except Fault Output)
    (first : Output → Except Fault Output) (second : Output → Except Fault Value) :
    (result.bind fun out => (first out).bind second) = (result.bind first).bind second := by
  cases result <;> rfl

theorem reached_mark (room : old.length = size.toNat) (char : Char) (text : List Char) :
    (reached size old text).bind
        (fun out => if char ∈ escapeChars then put size '\\' out else .ok out) =
      reached size old (text ++ if char ∈ escapeChars then ['\\'] else []) := by
  by_cases member : char ∈ escapeChars
  · simp only [if_pos member]
    exact reached_put room '\\' text
  · simp only [if_neg member, List.append_nil]
    exact bind_ok _

theorem reached_putString (room : old.length = size.toNat) (s text : List Char) :
    (reached size old text).bind (putString size s) =
      reached size old (text ++ escape escapeChars s) := by
  induction s generalizing text with
  | nil =>
      rw [escape_nil, List.append_nil]
      exact bind_ok _
  | cons char s induction =>
      have escaped : escape escapeChars (char :: s) =
          (if char ∈ escapeChars then ['\\'] else []) ++ [char] ++ escape escapeChars s := by
        rw [escape]
        split <;> rfl
      calc (reached size old text).bind (putString size (char :: s))
        _ = (((reached size old text).bind fun out =>
              if char ∈ escapeChars then put size '\\' out else .ok out).bind
                (put size char)).bind (putString size s) := by
            rw [← bind_bind, ← bind_bind]
            rfl
        _ = reached size old (text ++ escape escapeChars (char :: s)) := by
            rw [reached_mark room, reached_put room, induction, escaped]
            simp only [List.append_assoc]

end Printed

end Vpopmail.Qnprintf

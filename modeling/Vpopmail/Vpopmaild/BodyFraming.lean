import Vpopmail.ControlFiles
import Vpopmail.Vpopmaild.PathConfinement

/-! # Bodies of commands

`write_file` takes its body from the stream of commands up to a line with a period alone, and
`read_file` sends a file in the same form. Both read through a buffer that long lines do not
fit.
-/

namespace Vpopmail.Vpopmaild

open Vpopmail Text Vpopmail.Stream Buffer

/-! ## The commands -/

/-- The comparisons of `tmpbuf` with a line that has a period alone. -/
def isPeriod (tmpbuf : List Char) : Bool :=
  tmpbuf = ['.', '\r', '\n'] || tmpbuf = ['.', '\n']

/-- The loop of `write_file`: what it writes, and what it leaves of `stdin`. -/
def copyBody : (rounds : Nat) → (stdin : List Char) → List Char × List Char
  | 0, stdin => ([], stdin)
  | rounds + 1, stdin =>
      match fgets maxTmpBuff stdin with
      | none => ([], [])
      | some (tmpbuf, rest) =>
          if isPeriod (cstring tmpbuf) then ([], rest)
          else
            let copied := copyBody rounds rest
            (cstring tmpbuf ++ copied.1, copied.2)

/-- The files by their paths, and what `fopen` reports of one that it does not open. -/
structure Disk where
  files : List Char → Option (List Char)
  strerror : List Char → Option (List Char)

def Disk.write (disk : Disk) (filename text : List Char) : Disk :=
  { disk with files := Function.update disk.files filename (some text) }

def retOk : List Char := "+OK \r\n".toList

def retOkMore : List Char := "+OK+\r\n".toList

/-- The reply when `fopen` fails. -/
def openFailure (minor strerror : List Char) : List Char :=
  snprintf maxTmpBuff ("-ERR 0.".toList ++ minor ++ ' ' :: strerror ++ "\r\n".toList)

section Commands

variable (backend : Backend) (session : Session)

/-- The path of a file command; without an argument `strtok` returns a null pointer. -/
def filePath (command : FileCommand) (oldfilename : Option (List Char)) :
    Checked (Except Refusal (List Char)) :=
  match oldfilename with
  | none => .ok (.error command.missing)
  | some argument => pathArgument backend session argument

/-- `write_file`: the reply, the disk and what is left of `stdin`. -/
def writeFile (oldfilename : Option (List Char)) (disk : Disk) (stdin : List Char) :
    Checked (List Char × Disk × List Char) :=
  (filePath backend session .writeFile oldfilename).map fun answer =>
    match answer with
    | .error refusal => (showError refusal, disk, stdin)
    | .ok filename =>
        match disk.strerror filename with
        | some strerror => (openFailure "2002".toList strerror, disk, stdin)
        | none =>
            let copied := copyBody stdin.length stdin
            (retOk, disk.write filename copied.1, copied.2)

/-- What `read_file` sends of a chunk. -/
def sendChunk (tmpbuf : List Char) : List Char :=
  if isPeriod (cstring tmpbuf) then '.' :: cstring tmpbuf else cstring tmpbuf

/-- The last reply of `read_file`, which looks at what is in `tmpbuf`. -/
def lastReply (tmpbuf : List Char) : List Char :=
  if tmpbuf ≠ [] ∧ tmpbuf.getLast? ≠ some '\n' then "\r\n.\r\n".toList else ".\r\n".toList

/-- `read_file`: all that it sends, and the string that it leaves in the static `tmpbuf`. -/
def readFile (oldfilename : Option (List Char)) (disk : Disk) (tmpbuf : List Char) :
    Checked (List Char × List Char) :=
  (filePath backend session .readFile oldfilename).map fun answer =>
    match answer with
    | .error refusal => (showError refusal, tmpbuf)
    | .ok filename =>
        match disk.strerror filename, disk.files filename with
        | none, some text =>
            let chunks := fgetsLoop maxTmpBuff text
            let tmpbuf := (chunks.getLast?.map cstring).getD tmpbuf
            (retOkMore ++ chunks.flatMap sendChunk ++ lastReply tmpbuf, tmpbuf)
        | strerror, _ =>
            (openFailure "2102".toList (strerror.getD "No such file or directory".toList),
              tmpbuf)

end Commands

/-! ## Long lines -/

/-- A line whose last piece, with its newline, is a period alone. -/
def Mistakable (line : List Char) : Prop :=
  maxTmpBuff ≤ line.length ∧
    (line.length % (maxTmpBuff - 1) = 2 ∧ ['.', '\n'] <:+ line ∨
      line.length % (maxTmpBuff - 1) = 3 ∧ ['.', '\r', '\n'] <:+ line)

instance (line : List Char) : Decidable (Mistakable line) := by
  unfold Mistakable
  infer_instance

theorem isPeriod_iff {text : List Char} :
    isPeriod text = true ↔ text = ['.', '\n'] ∨ text = ['.', '\r', '\n'] := by
  rw [isPeriod, Bool.or_eq_true, decide_eq_true_eq, decide_eq_true_eq, or_comm]

theorem isPeriod_of_free {text : List Char} (free : Free '\n' text) : isPeriod text = false := by
  rw [Bool.eq_false_iff]
  intro period
  rcases isPeriod_iff.mp period with rfl | rfl
  · exact free (by decide)
  · exact free (by decide)

/-- The last of several pieces is a period alone. -/
theorem isPeriod_last_iff {front : List (List Char)} {last : List Char}
    (full : ∀ piece ∈ front, piece.length = maxTmpBuff - 1) (several : front ≠ [])
    (fits : last.length ≤ maxTmpBuff - 1) (nonempty : last ≠ []) :
    isPeriod last = true ↔ Mistakable (front.flatten ++ last) := by
  have whole : (front.flatten ++ last).length =
      front.length * (maxTmpBuff - 1) + last.length := by
    rw [List.length_append, length_flatten_of_full full]
  have some_front := List.length_pos_iff.mpr several
  have some_last := List.length_pos_iff.mpr nonempty
  have long : maxTmpBuff ≤ (front.flatten ++ last).length := by
    have one := Nat.mul_le_mul_right (maxTmpBuff - 1) some_front
    simp only [maxTmpBuff] at *
    omega
  have rest : (front.flatten ++ last).length % (maxTmpBuff - 1) =
      last.length % (maxTmpBuff - 1) := by
    rw [whole, Nat.mul_add_mod_self_right]
  have same {ending : List Char} (suffix : ending <:+ front.flatten ++ last)
      (equal : last.length = ending.length) : last = ending := by
    have inside := List.suffix_of_suffix_length_le suffix (List.suffix_append _ _)
      (Nat.le_of_eq equal.symm)
    exact (inside.eq_of_length equal.symm).symm
  rw [isPeriod_iff]
  constructor
  · rintro (period | period)
    · refine ⟨long, .inl ⟨?_, ?_⟩⟩
      · rw [rest, period]
        rfl
      · rw [period]
        exact List.suffix_append _ _
    · refine ⟨long, .inr ⟨?_, ?_⟩⟩
      · rw [rest, period]
        rfl
      · rw [period]
        exact List.suffix_append _ _
  · rintro ⟨_, ⟨count, suffix⟩ | ⟨count, suffix⟩⟩
    · apply Or.inl
      apply same suffix
      rw [rest] at count
      simp only [maxTmpBuff] at *
      show last.length = 2
      omega
    · apply Or.inr
      apply same suffix
      rw [rest] at count
      simp only [maxTmpBuff] at *
      show last.length = 3
      omega

/-- A line of several pieces is longer than a period. -/
theorem not_isPeriod_of_several {front : List (List Char)} (last : List Char)
    (full : ∀ piece ∈ front, piece.length = maxTmpBuff - 1) (several : front ≠ []) :
    isPeriod (front.flatten ++ last) = false := by
  rw [Bool.eq_false_iff]
  intro period
  have one := Nat.mul_le_mul_right (maxTmpBuff - 1) (List.length_pos_iff.mpr several)
  have size : (front.flatten ++ last).length = front.length * (maxTmpBuff - 1) + last.length := by
    rw [List.length_append, length_flatten_of_full full]
  have short : (front.flatten ++ last).length ≤ 3 := by
    rcases isPeriod_iff.mp period with line | line
    · rw [line]
      decide
    · rw [line]
      decide
  simp only [maxTmpBuff] at *
  omega

/-- Whether a line has a piece that is a period alone. -/
theorem exists_isPeriod_iff {body : List Char} (free : Free '\n' body) :
    (∃ piece ∈ fgetsLoop maxTmpBuff (body ++ ['\n']), isPeriod piece = true) ↔
      isPeriod (body ++ ['\n']) = true ∨ Mistakable (body ++ ['\n']) := by
  rcases exists_pieces (show 1 < maxTmpBuff by decide) free with
    ⟨front, last, pieces, full, fits, ended⟩
  have whole := fgetsLoop_flatten (show 1 < maxTmpBuff by decide) (body ++ ['\n'])
  rw [pieces, List.flatten_append, List.flatten_singleton] at whole
  have only : (∃ piece ∈ front ++ [last], isPeriod piece = true) ↔ isPeriod last = true := by
    constructor
    · rintro ⟨piece, member, period⟩
      rcases List.mem_append.mp member with inside | own
      · rw [isPeriod_of_free (full piece inside).2] at period
        cases period
      · rwa [← List.mem_singleton.mp own]
    · exact fun period => ⟨last, List.mem_append_right _ (List.mem_singleton_self last), period⟩
  rw [pieces, only]
  rcases Classical.em (front = []) with rfl | several
  · rw [List.flatten_nil, List.nil_append] at whole
    rw [whole]
    constructor
    · exact Or.inl
    · rintro (period | ⟨long, _⟩)
      · exact period
      · rw [whole] at fits
        simp only [maxTmpBuff] at *
        omega
  · have nonempty : last ≠ [] := by
      rintro rfl
      cases List.eq_nil_of_suffix_nil ended
    rw [isPeriod_last_iff (fun piece member => (full piece member).1) several fits nonempty, whole]
    constructor
    · exact Or.inr
    · rintro (period | mistakable)
      · have other := not_isPeriod_of_several last
          (fun piece member => (full piece member).1) several
        rw [whole, period] at other
        cases other
      · exact mistakable

/-! ## Bodies -/

def continues (chunk : List Char) : Bool := !isPeriod (cstring chunk)

/-- The chunks in front of the first period are written, and what follows it is left. -/
theorem copyBody_eq {rounds : Nat} {stdin : List Char} (enough : stdin.length ≤ rounds) :
    copyBody rounds stdin =
      (((fgetsLoop maxTmpBuff stdin).takeWhile continues).flatMap cstring,
        (((fgetsLoop maxTmpBuff stdin).dropWhile continues).drop 1).flatten) := by
  induction rounds generalizing stdin with
  | zero =>
      rw [List.length_eq_zero_iff.mp (Nat.le_zero.mp enough)]
      rfl
  | succ rounds induction =>
      cases read : fgets maxTmpBuff stdin with
      | none =>
          rw [eq_nil_of_fgets_none read]
          rfl
      | some pair =>
          have shorter := length_fgets_rest_lt (by decide) read
          have later : copyBody rounds pair.2 =
              (((fgetsLoop maxTmpBuff pair.2).takeWhile continues).flatMap cstring,
                (((fgetsLoop maxTmpBuff pair.2).dropWhile continues).drop 1).flatten) := by
            apply induction
            omega
          rw [fgetsLoop_eq (by decide) read, copyBody, read]
          cases period : isPeriod (cstring pair.1) with
          | true =>
              have stops : continues pair.1 = false := by rw [continues, period, Bool.not_true]
              rw [List.takeWhile_cons_of_neg (by simp [stops]),
                List.dropWhile_cons_of_neg (by simp [stops])]
              simp [period, fgetsLoop_flatten (show 1 < maxTmpBuff by decide)]
          | false =>
              have goes : continues pair.1 = true := by rw [continues, period, Bool.not_false]
              rw [List.takeWhile_cons_of_pos goes, List.dropWhile_cons_of_pos goes]
              simp [period, later]

/-- What a client sends of a sequence of lines. -/
def bodyText (lines : List (List Char)) : List Char := lines.flatMap (· ++ ['\n'])

/-- A line of a body: no newline, no NUL, and not a period alone. -/
structure BodyLine (line : List Char) : Prop where
  newline : Free '\n' line
  plain : Free nul line
  other : isPeriod (line ++ ['\n']) = false

section Bodies

variable {lines : List (List Char)}

theorem fgetsLoop_bodyText (free : ∀ line ∈ lines, Free '\n' line) (rest : List Char) :
    fgetsLoop maxTmpBuff (bodyText lines ++ rest) =
      (lines.flatMap fun line => fgetsLoop maxTmpBuff (line ++ ['\n'])) ++
        fgetsLoop maxTmpBuff rest := by
  induction lines with
  | nil => rfl
  | cons line lines induction =>
      have others := induction fun other member => free other (List.mem_cons_of_mem _ member)
      have text : bodyText (line :: lines) ++ rest = line ++ '\n' :: (bodyText lines ++ rest) := by
        simp [bodyText]
      rw [text, fgetsLoop_append_newline (by decide) (free line List.mem_cons_self), others,
        List.flatMap_cons, List.append_assoc]

theorem plain_of_mem_fgetsLoop {stream chunk : List Char} (plain : Free nul stream)
    (member : chunk ∈ fgetsLoop maxTmpBuff stream) : Free nul chunk := by
  intro inside
  apply plain
  rw [← fgetsLoop_flatten (show 1 < maxTmpBuff by decide) stream]
  exact List.mem_flatten.mpr ⟨chunk, member, inside⟩

theorem flatMap_cstring {chunks : List (List Char)} (plain : ∀ chunk ∈ chunks, Free nul chunk) :
    chunks.flatMap cstring = chunks.flatten := by
  rw [List.flatMap_def, List.map_congr_left fun chunk member => cstring_of_free (plain chunk member),
    List.map_id']

/-- Up to its first period a body is copied; all of it if there is none. -/
theorem copied_eq_iff {chunks : List (List Char)} (nonempty : ∀ chunk ∈ chunks, chunk ≠ []) :
    (chunks.takeWhile continues).flatten = chunks.flatten ↔ ∀ chunk ∈ chunks, continues chunk := by
  constructor
  · intro same
    have parts := List.takeWhile_append_dropWhile (p := continues) (l := chunks)
    have left : (chunks.dropWhile continues).flatten = [] := by
      have whole := congrArg List.flatten parts
      rw [List.flatten_append, same] at whole
      exact List.append_right_eq_self.mp whole
    have none_left : chunks.dropWhile continues = [] := by
      rw [List.flatten_eq_nil_iff] at left
      apply List.eq_nil_iff_forall_not_mem.mpr
      intro chunk member
      exact nonempty chunk ((List.dropWhile_sublist _).subset member) (left chunk member)
    exact List.dropWhile_eq_nil_iff.mp none_left
  · intro all
    rw [List.takeWhile_eq_self_iff.mpr all]

/-- A stream with a body goes on behind the chunks of its lines with the period. -/
theorem fgetsLoop_body (body : ∀ line ∈ lines, BodyLine line) {ending : List Char}
    (period : isPeriod ending = true) (rest : List Char) :
    fgetsLoop maxTmpBuff (bodyText lines ++ (ending ++ rest)) =
      (lines.flatMap fun line => fgetsLoop maxTmpBuff (line ++ ['\n'])) ++
        ending :: fgetsLoop maxTmpBuff rest := by
  have isLine : IsLine ending ∧ ending.length < maxTmpBuff := by
    rcases isPeriod_iff.mp period with rfl | rfl
    · exact ⟨⟨['.'], by decide, rfl⟩, by decide⟩
    · exact ⟨⟨['.', '\r'], by decide, rfl⟩, by decide⟩
  rw [fgetsLoop_bodyText fun line member => (body line member).newline,
    fgetsLoop_eq (by decide) (fgets_line isLine.1 isLine.2 rest)]

/-- No chunk of a body ends it exactly if none of its lines is mistaken. -/
theorem continues_body_iff (body : ∀ line ∈ lines, BodyLine line) :
    (∀ chunk ∈ lines.flatMap fun line => fgetsLoop maxTmpBuff (line ++ ['\n']),
        continues chunk = true) ↔
      ∀ line ∈ lines, ¬ Mistakable (line ++ ['\n']) := by
  have line_iff {line : List Char} (member : line ∈ lines) :
      (∀ chunk ∈ fgetsLoop maxTmpBuff (line ++ ['\n']), continues chunk = true) ↔
        ¬ Mistakable (line ++ ['\n']) := by
    have own := body line member
    have pieces := exists_isPeriod_iff own.newline
    rw [own.other] at pieces
    have plain {chunk : List Char} (inside : chunk ∈ fgetsLoop maxTmpBuff (line ++ ['\n'])) :
        continues chunk = !isPeriod chunk := by
      rw [continues, cstring_of_free]
      apply plain_of_mem_fgetsLoop _ inside
      exact free_append.mpr ⟨own.plain, by decide⟩
    constructor
    · intro all mistakable
      rcases pieces.mpr (.inr mistakable) with ⟨piece, inside, period⟩
      have goes := all piece inside
      rw [plain inside, period] at goes
      cases goes
    · intro good chunk inside
      rw [plain inside, Bool.not_eq_true']
      apply Bool.eq_false_iff.mpr
      intro period
      rcases pieces.mp ⟨chunk, inside, period⟩ with other | mistakable
      · cases other
      · exact good mistakable
  constructor
  · intro all line member
    apply (line_iff member).mp
    exact fun chunk inside => all chunk (List.mem_flatMap.mpr ⟨line, member, inside⟩)
  · intro good chunk inside
    rcases List.mem_flatMap.mp inside with ⟨line, member, inside⟩
    exact (line_iff member).mpr (good line member) chunk inside

theorem copyBody_body_iff (body : ∀ line ∈ lines, BodyLine line) {ending : List Char}
    (period : isPeriod ending = true) (rest : List Char) :
    copyBody (bodyText lines ++ (ending ++ rest)).length (bodyText lines ++ (ending ++ rest)) =
        (bodyText lines, rest) ↔
      ∀ line ∈ lines, ¬ Mistakable (line ++ ['\n']) := by
  rw [copyBody_eq (Nat.le_refl _), fgetsLoop_body body period, ← continues_body_iff body]
  have text : (lines.flatMap fun line => fgetsLoop maxTmpBuff (line ++ ['\n'])).flatten =
      bodyText lines := by
    rw [List.flatten_eq_flatMap, List.flatMap_assoc, bodyText]
    apply List.flatMap_congr
    intro line _
    rw [← List.flatten_eq_flatMap, fgetsLoop_flatten (by decide)]
  have member_line {chunk : List Char} (inside : chunk ∈ lines.flatMap fun line =>
      fgetsLoop maxTmpBuff (line ++ ['\n'])) :
      ∃ line ∈ lines, chunk ∈ fgetsLoop maxTmpBuff (line ++ ['\n']) := List.mem_flatMap.mp inside
  have plain : ∀ chunk ∈ lines.flatMap fun line => fgetsLoop maxTmpBuff (line ++ ['\n']),
      Free nul chunk := by
    intro chunk inside
    rcases member_line inside with ⟨line, member, inside⟩
    apply plain_of_mem_fgetsLoop _ inside
    exact free_append.mpr ⟨(body line member).plain, by decide⟩
  have nonempty : ∀ chunk ∈ lines.flatMap fun line => fgetsLoop maxTmpBuff (line ++ ['\n']),
      chunk ≠ [] := by
    intro chunk inside
    rcases member_line inside with ⟨line, _, inside⟩
    exact ne_nil_of_mem_fgetsLoop (by decide) inside
  have stops : continues ending = false := by
    rw [continues, cstring_of_free, period, Bool.not_true]
    rcases isPeriod_iff.mp period with rfl | rfl
    · decide
    · decide
  generalize (lines.flatMap fun line => fgetsLoop maxTmpBuff (line ++ ['\n'])) = chunks at *
  constructor
  · intro copied
    have stored := congrArg Prod.fst copied
    simp only [List.takeWhile_append] at stored
    split at stored
    · rename_i complete
      have same := (List.takeWhile_prefix continues (l := chunks)).eq_of_length complete
      exact List.takeWhile_eq_self_iff.mp same
    · have prefix_plain : ∀ chunk ∈ chunks.takeWhile continues, Free nul chunk :=
        fun chunk member => plain chunk ((List.takeWhile_sublist _).subset member)
      rw [flatMap_cstring prefix_plain, ← text] at stored
      exact (copied_eq_iff nonempty).mp stored
  · intro all
    rw [List.takeWhile_append_of_pos all, List.dropWhile_append_of_pos all,
      List.takeWhile_cons_of_neg (by simp [stops]), List.dropWhile_cons_of_neg (by simp [stops]),
      List.append_nil, flatMap_cstring plain, text, List.drop_one, List.tail_cons,
      fgetsLoop_flatten (by decide)]

end Bodies

/-! ## Files -/

/-- What a line of a file is sent as: one that is a period alone gets a second one. -/
def sentLine (line : List Char) : List Char :=
  if line = ['.'] || isPeriod line then '.' :: line else line

/-- The line that ends what is sent; an unended last line is ended in front of it. -/
def terminator (text : List Char) : List Char :=
  if text ≠ [] ∧ text.getLast? ≠ some '\n' then "\r\n.\r\n".toList else ".\r\n".toList

/-- When the pieces of a text are sent as its lines. -/
structure Sendable (text : List Char) : Prop where
  whole : ∀ line ∈ wholeLines text, ¬ Mistakable line
  ended : ['.'] ∉ wholeLines text

/-- Behind a period in front of which one too many is sent, the texts differ. -/
theorem period_append_ne {last : List Char} (period : isPeriod last = true)
    (sent expected : List Char) : '.' :: last ++ sent ≠ last ++ expected := by
  intro same
  rcases isPeriod_iff.mp period with rfl | rfl
  · simp at same
  · simp at same

theorem sendChunk_eq {chunk : List Char} (plain : Free nul chunk) :
    sendChunk chunk = if isPeriod chunk then '.' :: chunk else chunk := by
  rw [sendChunk, cstring_of_free plain]

theorem flatMap_sendChunk_of_free {chunks : List (List Char)}
    (free : ∀ chunk ∈ chunks, Free nul chunk ∧ Free '\n' chunk) :
    chunks.flatMap sendChunk = chunks.flatten := by
  rw [List.flatten_eq_flatMap]
  apply List.flatMap_congr
  intro chunk member
  rw [sendChunk_eq (free chunk member).1, isPeriod_of_free (free chunk member).2]
  rfl

/-- A line without a newline is the last one. -/
theorem flatMap_sendChunk_last {body : List Char} (free : Free '\n' body) (plain : Free nul body)
    (nonempty : body ≠ []) :
    (fgetsLoop maxTmpBuff body).flatMap sendChunk = (wholeLines body).flatMap sentLine ↔
      Sendable body := by
  have flat := fgetsLoop_flatten (show 1 < maxTmpBuff by decide) body
  have free_chunks : ∀ chunk ∈ fgetsLoop maxTmpBuff body, Free nul chunk ∧ Free '\n' chunk := by
    intro chunk member
    refine ⟨plain_of_mem_fgetsLoop plain member, fun inside => free ?_⟩
    rw [← flat]
    exact List.mem_flatten.mpr ⟨chunk, member, inside⟩
  have only : wholeLines body = [body] := wholeLines_of_free free nonempty
  rw [flatMap_sendChunk_of_free free_chunks, flat, only, List.flatMap_singleton, sentLine,
    isPeriod_of_free free, Bool.or_false]
  constructor
  · intro same
    constructor
    · intro line member mistakable
      rw [only, List.mem_singleton] at member
      rw [member] at mistakable
      rcases mistakable with ⟨_, ⟨_, suffix⟩ | ⟨_, suffix⟩⟩
      · exact free (suffix.subset (by decide))
      · exact free (suffix.subset (by decide))
    · intro member
      rw [only, List.mem_singleton] at member
      rw [← member] at same
      cases same
  · intro sendable
    have other : body ≠ ['.'] := by
      intro period
      apply sendable.ended
      rw [only, period]
      exact List.mem_singleton_self _
    rw [if_neg (by simpa using other)]

theorem sendable_line_iff {body rest : List Char} (free : Free '\n' body) :
    Sendable (body ++ '\n' :: rest) ↔ ¬ Mistakable (body ++ ['\n']) ∧ Sendable rest := by
  have lines := wholeLines_line free rest
  have other : ['.'] ≠ body ++ ['\n'] := by
    intro same
    have last := congrArg List.getLast? same
    simp at last
  constructor
  · intro sendable
    refine ⟨sendable.whole _ (lines ▸ List.mem_cons_self), ?_, ?_⟩
    · exact fun line member => sendable.whole line (lines ▸ List.mem_cons_of_mem _ member)
    · exact fun member => sendable.ended (lines ▸ List.mem_cons_of_mem _ member)
  · rintro ⟨good, sendable⟩
    constructor
    · intro line member
      rw [lines] at member
      rcases List.mem_cons.mp member with rfl | later
      · exact good
      · exact sendable.whole line later
    · intro member
      rw [lines] at member
      rcases List.mem_cons.mp member with own | later
      · exact other own
      · exact sendable.ended later

/-- The chunks are sent as the lines exactly if no piece of a longer line is mistaken for a
line, and the last line is not an unended period. -/
theorem flatMap_sendChunk_iff {text : List Char} (plain : Free nul text) :
    (fgetsLoop maxTmpBuff text).flatMap sendChunk = (wholeLines text).flatMap sentLine ↔
      Sendable text := by
  induction text using lines_induction with
  | empty =>
      constructor
      · intro _
        constructor
        · intro line member
          cases member
        · intro member
          cases member
      · exact fun _ => rfl
  | last body free nonempty => exact flatMap_sendChunk_last free plain nonempty
  | line body rest free induction =>
      have parts := free_append.mp plain
      have later := induction (free_cons.mp parts.2).2
      have plain_line : Free nul (body ++ ['\n']) := free_append.mpr ⟨parts.1, by decide⟩
      rcases exists_pieces (show 1 < maxTmpBuff by decide) free with
        ⟨front, last, pieces, full, fits, ended⟩
      have whole := fgetsLoop_flatten (show 1 < maxTmpBuff by decide) (body ++ ['\n'])
      rw [pieces, List.flatten_append, List.flatten_singleton] at whole
      have nonempty : last ≠ [] := by
        rintro rfl
        cases List.eq_nil_of_suffix_nil ended
      have inside {piece : List Char} (member : piece ∈ front ++ [last]) : Free nul piece :=
        plain_of_mem_fgetsLoop plain_line (pieces ▸ member)
      have front_sent : front.flatMap sendChunk = front.flatten :=
        flatMap_sendChunk_of_free fun piece member =>
          ⟨inside (List.mem_append_left _ member), (full piece member).2⟩
      have last_sent := sendChunk_eq (inside (List.mem_append_right _ List.mem_cons_self))
      have other : body ++ ['\n'] ≠ ['.'] := by
        intro same
        have ending := congrArg List.getLast? same
        simp at ending
      have line_sent : sentLine (body ++ ['\n']) =
          if isPeriod (body ++ ['\n']) then '.' :: (body ++ ['\n']) else body ++ ['\n'] := by
        rw [sentLine, decide_eq_false other, Bool.false_or]
      rw [fgetsLoop_append_newline (by decide) free, pieces, wholeLines_line free,
        List.flatMap_append, List.flatMap_append, front_sent, List.flatMap_singleton, last_sent,
        List.flatMap_cons, line_sent, sendable_line_iff free, ← later]
      rcases Classical.em (front = []) with rfl | several
      · -- The line is one piece.
        rw [List.flatten_nil, List.nil_append] at whole
        rw [whole] at fits
        have short : ¬ Mistakable (body ++ ['\n']) := by
          intro mistakable
          have long := mistakable.1
          simp only [maxTmpBuff] at *
          omega
        rw [List.flatten_nil, List.nil_append, whole, List.append_right_inj]
        exact (and_iff_right short).symm
      · have full_front := fun piece member => (full piece member).1
        have mistaken := isPeriod_last_iff full_front several fits nonempty
        have longer := not_isPeriod_of_several last full_front several
        rw [whole] at mistaken longer
        rw [longer, if_neg Bool.false_ne_true, ← mistaken]
        rw [← whole]
        cases period : isPeriod last with
        | true =>
            rw [if_pos rfl, List.append_assoc, List.append_assoc, List.append_right_inj]
            constructor
            · exact fun same => absurd same (period_append_ne period _ _)
            · exact fun both => absurd rfl both.1
        | false =>
            rw [if_neg Bool.false_ne_true, List.append_right_inj]
            exact (and_iff_right Bool.false_ne_true).symm

/-! ## Replies -/

/-- The reply to `read_file` that a file calls for. -/
def fileReply (text : List Char) : List Char :=
  retOkMore ++ (wholeLines text).flatMap sentLine ++ terminator text

/-- The string that the last `fgets` left in `tmpbuf` ends in the same way as the file. -/
theorem lastReply_chunks {text : List Char} (plain : Free nul text) (nonempty : text ≠ [])
    (tmpbuf : List Char) :
    lastReply (((fgetsLoop maxTmpBuff text).getLast?.map cstring).getD tmpbuf) =
      terminator text := by
  have flat := fgetsLoop_flatten (show 1 < maxTmpBuff by decide) text
  have some_chunk : fgetsLoop maxTmpBuff text ≠ [] := by
    intro empty
    rw [empty] at flat
    exact nonempty flat.symm
  have member := List.getLast_mem some_chunk
  have chunk_nonempty := ne_nil_of_mem_fgetsLoop (by decide) member
  have split := List.dropLast_append_getLast some_chunk
  rw [← split, List.flatten_append, List.flatten_singleton] at flat
  have ending := congrArg List.getLast? flat
  rw [List.getLast?_append_of_ne_nil _ chunk_nonempty] at ending
  rw [List.getLast?_eq_some_getLast some_chunk, Option.map_some, Option.getD_some,
    cstring_of_free (plain_of_mem_fgetsLoop plain member), lastReply, terminator, ← ending]
  simp only [ne_eq, chunk_nonempty, nonempty, not_false_eq_true, true_and]

theorem free_sendChunk (chunk : List Char) : Free nul (sendChunk chunk) := by
  have free : Free nul (cstring chunk) := free_takeWhile_ne nul chunk
  rw [sendChunk]
  split
  · exact free_cons.mpr ⟨by decide, free⟩
  · exact free

theorem mem_sentLine {char : Char} {line : List Char} (member : char ∈ line) :
    char ∈ sentLine line := by
  rw [sentLine]
  split
  · exact List.mem_cons_of_mem _ member
  · exact member

/-- Replies have no NUL, so that a file that is sent has none either. -/
theorem plain_of_reply {text tmpbuf : List Char}
    (same : retOkMore ++ (fgetsLoop maxTmpBuff text).flatMap sendChunk ++ lastReply tmpbuf =
      fileReply text) : Free nul text := by
  intro member
  rw [← wholeLines_flatten text] at member
  rcases List.mem_flatten.mp member with ⟨line, line_member, member⟩
  have expected : nul ∈ fileReply text :=
    List.mem_append_left _ (List.mem_append_right _
      (List.mem_flatMap.mpr ⟨line, line_member, mem_sentLine member⟩))
  rw [← same, List.mem_append, List.mem_append] at expected
  rcases expected with (first | chunks) | last
  · exact absurd first (by decide)
  · rcases List.mem_flatMap.mp chunks with ⟨chunk, _, sent⟩
    exact free_sendChunk chunk sent
  · rw [lastReply] at last
    split at last
    · exact absurd last (by decide)
    · exact absurd last (by decide)

/-- When `read_file` sends what a file calls for. -/
structure Readable (text tmpbuf : List Char) : Prop where
  plain : Free nul text
  sendable : Sendable text
  fresh : text = [] → tmpbuf = [] ∨ tmpbuf.getLast? = some '\n'

theorem reply_eq_iff (text tmpbuf : List Char) :
    retOkMore ++ (fgetsLoop maxTmpBuff text).flatMap sendChunk ++
        lastReply (((fgetsLoop maxTmpBuff text).getLast?.map cstring).getD tmpbuf) =
      fileReply text ↔ Readable text tmpbuf := by
  rcases Classical.em (text = []) with rfl | nonempty
  · have left : fgetsLoop maxTmpBuff [] = [] := rfl
    have stays : lastReply tmpbuf = ".\r\n".toList ↔
        (tmpbuf = [] ∨ tmpbuf.getLast? = some '\n') := by
      rw [lastReply]
      split
      · rename_i stale
        constructor
        · intro same
          cases same
        · rintro (empty | ended)
          · exact absurd empty stale.1
          · exact absurd ended stale.2
      · rename_i fresh
        rw [not_and_or, Decidable.not_not, Decidable.not_not] at fresh
        exact ⟨fun _ => fresh, fun _ => rfl⟩
    have expected : fileReply [] = retOkMore ++ ".\r\n".toList := rfl
    rw [left, expected, List.flatMap_nil, List.append_nil, List.append_right_inj]
    constructor
    · intro same
      exact ⟨free_nil nul, (flatMap_sendChunk_iff (free_nil nul)).mp rfl, fun _ => stays.mp same⟩
    · exact fun readable => stays.mpr (readable.fresh rfl)
  · constructor
    · intro same
      have plain := plain_of_reply same
      rw [lastReply_chunks plain nonempty, fileReply] at same
      have bodies := List.append_cancel_left (List.append_cancel_right same)
      exact ⟨plain, (flatMap_sendChunk_iff plain).mp bodies, fun empty => absurd empty nonempty⟩
    · intro readable
      rw [lastReply_chunks readable.plain nonempty, fileReply,
        (flatMap_sendChunk_iff readable.plain).mpr readable.sendable]

/-! ## Both commands -/

section Framing

variable (backend : Backend) (session : Session)

/-- A path that passes, and that `fopen` opens. -/
def Opens (command : FileCommand) (disk : Disk) (oldfilename : Option (List Char))
    (filename : List Char) : Prop :=
  filePath backend session command oldfilename = .ok (.ok filename) ∧
    disk.strerror filename = none

variable {backend session}

theorem writeFile_opened {disk : Disk} {oldfilename : Option (List Char)} {filename : List Char}
    (opens : Opens backend session .writeFile disk oldfilename filename) (stdin : List Char) :
    writeFile backend session oldfilename disk stdin =
      .ok (retOk, disk.write filename (copyBody stdin.length stdin).1,
        (copyBody stdin.length stdin).2) := by
  rw [writeFile, opens.1]
  simp only [Except.map, opens.2]

/-- A command that does not open its file leaves the body to be read as commands. -/
theorem writeFile_refused {disk : Disk} {oldfilename : Option (List Char)}
    (refused : ¬ ∃ filename, Opens backend session .writeFile disk oldfilename filename)
    {stdin : List Char} {reply : List Char × Disk × List Char}
    (run : writeFile backend session oldfilename disk stdin = .ok reply) :
    reply.2 = (disk, stdin) := by
  rw [writeFile] at run
  rcases path : filePath backend session .writeFile oldfilename with fault | refusal | filename
  · rw [path] at run
    cases run
  · rw [path] at run
    cases run
    rfl
  · rw [path] at run
    cases opened : disk.strerror filename with
    | none => exact absurd ⟨filename, path, opened⟩ refused
    | some strerror =>
        simp only [Except.map, opened] at run
        cases run
        rfl

theorem Disk.write_injective {disk : Disk} {filename text other : List Char}
    (same : disk.write filename text = disk.write filename other) : text = other := by
  have files := congrFun (congrArg Disk.files same) filename
  simpa [Disk.write] using files

variable (backend session)

/-- `write_file` stores the lines of a body, and leaves what follows it, exactly if the file
is opened and no line of the body has a piece of a full buffer behind which a period ends it.
`read_file` sends what the file calls for exactly if the file has no NUL, no such line, no
unended period at its end, and, being empty, does not come after a file whose last line was
not ended. -/
theorem bodyFraming_iff :
    (∀ (disk : Disk) (oldfilename : Option (List Char)) (lines : List (List Char))
        (ending rest : List Char), (∀ line ∈ lines, BodyLine line) → isPeriod ending = true →
      ((∃ filename, filePath backend session .writeFile oldfilename = .ok (.ok filename) ∧
          (writeFile backend session oldfilename disk
            (bodyText lines ++ (ending ++ rest))).map Prod.snd =
              .ok (disk.write filename (bodyText lines), rest)) ↔
        (∃ filename, Opens backend session .writeFile disk oldfilename filename) ∧
          ∀ line ∈ lines, ¬ Mistakable (line ++ ['\n']))) ∧
    ∀ (disk : Disk) (oldfilename : Option (List Char)) (filename text tmpbuf : List Char),
      Opens backend session .readFile disk oldfilename filename →
      disk.files filename = some text →
      ((readFile backend session oldfilename disk tmpbuf).map Prod.fst = .ok (fileReply text) ↔
        Readable text tmpbuf) := by
  constructor
  · intro disk oldfilename lines ending rest body period
    have copied := copyBody_body_iff body period rest
    rcases Classical.em (∃ filename, Opens backend session .writeFile disk oldfilename filename)
      with ⟨filename, opens⟩ | refused
    · rw [writeFile_opened opens, ← copied]
      constructor
      · rintro ⟨other, path, same⟩
        rw [opens.1] at path
        cases path
        rw [Except.map, Except.ok.injEq, Prod.mk.injEq] at same
        refine ⟨⟨filename, opens⟩, Prod.ext (Disk.write_injective same.1) same.2⟩
      · rintro ⟨_, same⟩
        refine ⟨filename, opens.1, ?_⟩
        rw [Except.map, same]
    · constructor
      · rintro ⟨filename, _, same⟩
        rcases run : writeFile backend session oldfilename disk
          (bodyText lines ++ (ending ++ rest)) with fault | reply
        · rw [run] at same
          cases same
        rw [run, Except.map, Except.ok.injEq, writeFile_refused refused run] at same
        have left := congrArg List.length (Prod.mk.inj same).2
        have positive : 0 < ending.length := by
          rcases isPeriod_iff.mp period with rfl | rfl
          · decide
          · decide
        simp only [List.length_append] at left
        omega
      · exact fun both => absurd both.1 refused
  · intro disk oldfilename filename text tmpbuf opens present
    rw [← reply_eq_iff, readFile, opens.1]
    simp only [Except.map, opens.2, present, Except.ok.injEq]

end Framing

/-! ## Sample runs -/

/-- A disk with one file, which can be opened. -/
def diskWith (text : List Char) : Disk where
  files path := if path = "/domains/example.com/bob/.qmail".toList then some text else none
  strerror _ := none

def qmailFile : List Char := "/domains/example.com/bob/.qmail".toList

/-- A body of two lines, and a file with a period in its first line. -/
theorem bodyFraming_bob :
    (∃ filename, filePath neighbours bob .writeFile (some qmailFile) = .ok (.ok filename) ∧
      (writeFile neighbours bob (some qmailFile) (diskWith [])
        (bodyText ["..".toList, "bob@example.org".toList] ++
          (['.', '\n'] ++ "quit\n".toList))).map Prod.snd =
        .ok ((diskWith []).write filename (bodyText ["..".toList, "bob@example.org".toList]),
          "quit\n".toList)) ∧
    (readFile neighbours bob (some qmailFile)
        (diskWith ".\nbob@example.org".toList) []).map Prod.fst =
      .ok (fileReply ".\nbob@example.org".toList) := by
  have both := bodyFraming_iff neighbours bob
  constructor
  · have body : ∀ line ∈ ["..".toList, "bob@example.org".toList], BodyLine line :=
      List.forall_mem_cons.mpr ⟨⟨by decide, by decide, by decide⟩,
        List.forall_mem_cons.mpr ⟨⟨by decide, by decide, by decide⟩, by simp⟩⟩
    exact (both.1 (diskWith []) (some qmailFile) _ ['.', '\n'] "quit\n".toList body
      (by decide)).mpr ⟨⟨qmailFile, rfl, rfl⟩, by decide⟩
  · have readable : Readable ".\nbob@example.org".toList [] := by
      constructor
      · decide
      · constructor
        · decide
        · decide
      · exact fun _ => .inl rfl
    exact (both.2 _ _ qmailFile _ _ ⟨rfl, rfl⟩ rfl).mpr readable

/-- A line of 1024 characters with a period at its end. -/
def longLine : List Char := List.replicate 1023 'x' ++ ['.']

/-- The body may end inside of a line, and what is sent of an empty file depends on the file
before it. -/
theorem not_bodyFraming :
    (¬ ∀ (lines : List (List Char)) (rest : List Char), (∀ line ∈ lines, BodyLine line) →
      (writeFile neighbours bob (some qmailFile) (diskWith [])
        (bodyText lines ++ (['.', '\n'] ++ rest))).map Prod.snd =
          .ok ((diskWith []).write qmailFile (bodyText lines), rest)) ∧
    ¬ ∀ tmpbuf, (readFile neighbours bob (some qmailFile) (diskWith []) tmpbuf).map Prod.fst =
      .ok (fileReply []) := by
  constructor
  · intro framed
    have body : ∀ line ∈ [longLine], BodyLine line := by
      intro line member
      rw [List.mem_singleton.mp member]
      constructor
      · decide +kernel
      · decide +kernel
      · decide +kernel
    have run := framed [longLine] [] body
    have opens : Opens neighbours bob .writeFile (diskWith []) (some qmailFile) qmailFile :=
      ⟨rfl, rfl⟩
    rw [writeFile_opened opens, Except.map, Except.ok.injEq, Prod.mk.injEq] at run
    have copied : copyBody (bodyText [longLine] ++ (['.', '\n'] ++ [])).length
        (bodyText [longLine] ++ (['.', '\n'] ++ [])) = (bodyText [longLine], []) :=
      Prod.ext (Disk.write_injective run.1) run.2
    have mistaken : Mistakable (longLine ++ ['\n']) := by decide +kernel
    exact (copyBody_body_iff body (by decide) []).mp copied longLine
      (List.mem_singleton_self _) mistaken
  · intro reply
    have sent := reply ['x']
    revert sent
    decide +kernel

end Vpopmail.Vpopmaild

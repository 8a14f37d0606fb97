import Vpopmail.Vdelivermail

/-! # Spam in several reads

`fdcopy` gives `is_spam` the buffer behind every read, as long as it is in the headers. The
buffer holds more than was read, and a line can go on in the next read.
-/

namespace Vpopmail.Vdelivermail

open Vpopmail Text

/-! ## The header of a message -/

def msgBufSize : Nat := 5000

/-- A line of blanks ends the header. -/
def blankLine (line : List Char) : Bool := line.all fun char => char ∈ [' ', '\t', '\r']

/-- The header has a line that begins with the flag. -/
def headerSpam (message : List Char) : Bool :=
  ((message.splitOn '\n').takeWhile fun line => !blankLine line).any spamFlag.isPrefixOf

/-- A line tells what the message is if all lines in front of it do not. -/
def deciding (line : List Char) : Bool := blankLine line || spamFlag.isPrefixOf line

/-- `is_spam` stops at a NUL, and takes a carriage return for the end of a line. -/
def Clean (text : List Char) : Prop := nul ∉ text ∧ '\r' ∉ text

/-- One of the whole lines decides. It has no NUL, and the lines in front of it are clean. -/
def Decides (first : List Char) : Prop :=
  ∃ before line behind, (first.splitOn '\n').dropLast = before ++ line :: behind ∧
    deciding line = true ∧ nul ∉ line ∧ ∀ other ∈ before, Clean other

/-- A message without a read has no header. -/
def FirstDecides (chunks : List (List Char)) : Prop :=
  ∀ first, chunks.head? = some first → Decides first

/-- `DeleteMail` is set exactly for spam, whatever the buffer holds at first. -/
def DetectsSpam (mailer : Mailer) (limits : Limits) (process : Process)
    (chunks : List (List Char)) : Prop :=
  ∀ stale : List Char, stale.length = msgBufSize →
    ∃ copied, copyLoop mailer limits process chunks stale = .ok copied ∧
      copied.2.2.deleteMail = headerSpam chunks.flatten

/-! ## Lines -/

section Lines

theorem splitOn_line {line : List Char} (free : Free '\n' line) (rest : List Char) :
    (line ++ '\n' :: rest).splitOn '\n' = line :: rest.splitOn '\n' := by
  rw [List.splitOn_append_cons_self, List.splitOn_eq_singleton free]
  rfl

/-- The first whole line. -/
theorem exists_line {first line : List Char} {lines : List (List Char)}
    (whole : (first.splitOn '\n').dropLast = line :: lines) :
    ∃ rest, first = line ++ '\n' :: rest ∧ Free '\n' line ∧ (rest.splitOn '\n').dropLast = lines := by
  rcases free_or_eq_append_cons '\n' first with free | ⟨front, rest, free, rfl⟩
  · rw [List.splitOn_eq_singleton free] at whole
    cases whole
  · rw [splitOn_line free, List.dropLast_cons_of_ne_nil (List.splitOn_ne_nil '\n' rest)] at whole
    rcases List.cons.inj whole with ⟨rfl, same⟩
    exact ⟨rest, rfl, free, same⟩

theorem headerSpam_line {line : List Char} (free : Free '\n' line) (rest : List Char) :
    headerSpam (line ++ '\n' :: rest) =
      if blankLine line then false else spamFlag.isPrefixOf line || headerSpam rest := by
  rw [headerSpam, splitOn_line free, headerSpam]
  cases blank : blankLine line <;> simp [blank]

theorem isPrefixOf_line {flag line : List Char} {ending : Char} (plain : Free ending flag)
    (rest : List Char) : flag.isPrefixOf (line ++ ending :: rest) = flag.isPrefixOf line := by
  induction flag generalizing line with
  | nil => rfl
  | cons char flag induction =>
      rw [free_cons] at plain
      cases line with
      | nil => simpa [List.isPrefixOf] using fun same : char = ending => absurd same.symm plain.1
      | cons head line => simp [List.isPrefixOf, induction plain.2]

theorem blankLine_flag {line : List Char} (flagged : spamFlag.isPrefixOf line = true) :
    blankLine line = false := by
  rcases List.isPrefixOf_iff_prefix.mp flagged with ⟨rest, rfl⟩
  rfl

end Lines

/-! ## Scans -/

section Scans

/-- The line that is ended next. -/
theorem scanSpam_line {line : List Char} {ending : Char} (ends : ending = '\n' ∨ ending = '\r')
    (free : Free '\n' line) (clean : Clean line) (lineStart rest : List Char) (blank : Bool) :
    scanSpam lineStart blank (line ++ ending :: rest) =
      if blank && blankLine line then .ok (false, false)
      else if spamFlag.isPrefixOf lineStart then .ok (true, true)
      else if rest.head? = some nul then scanSpam lineStart false rest
      else scanSpam rest true rest := by
  induction line generalizing blank with
  | nil =>
      have other : ¬ending = nul := by
        rcases ends with rfl | rfl <;> decide
      rw [List.nil_append, scanSpam, if_neg other, if_pos ends, blankLine, List.all_nil,
        Bool.and_true]
  | cons char line induction =>
      rw [Clean, List.mem_cons, List.mem_cons, not_or, not_or] at clean
      rw [free_cons] at free
      have notNul : ¬char = nul := fun same => clean.1.1 same.symm
      have notEnd : ¬(char = '\n' ∨ char = '\r') :=
        not_or.mpr ⟨fun same => free.1 same.symm, fun same => clean.2.1 same.symm⟩
      rw [List.cons_append, scanSpam, if_neg notNul, if_neg notEnd,
        induction free.2 ⟨clean.1.2, clean.2.2⟩]
      have same : (blank && (decide (char = ' ') || decide (char = '\t')) && blankLine line) =
          (blank && blankLine (char :: line)) := by
        simp [blankLine, Ne.symm clean.2.1, Bool.and_assoc]
      rw [same]

/-- A line in the buffer, which ends the scan if it decides. -/
theorem scanSpam_whole {line : List Char} {ending : Char} (ends : ending = '\n' ∨ ending = '\r')
    (free : Free '\n' line) (clean : Clean line) (rest : List Char) :
    scanSpam (line ++ ending :: rest) true (line ++ ending :: rest) =
      if blankLine line then .ok (false, false)
      else if spamFlag.isPrefixOf line then .ok (true, true)
      else if rest.head? = some nul then scanSpam (line ++ ending :: rest) false rest
      else scanSpam rest true rest := by
  have plain : Free ending spamFlag := by
    rcases ends with rfl | rfl <;> decide
  rw [scanSpam_line ends free clean, Bool.true_and, isPrefixOf_line plain]

/-- A carriage return in the line that decides only ends it earlier. -/
theorem scanSpam_deciding {line : List Char} (free : Free '\n' line) (noNul : nul ∉ line)
    (decides : deciding line = true) (rest more : List Char) :
    ∃ spam headers, scanSpam (line ++ '\n' :: rest) true (line ++ '\n' :: rest) =
        .ok (spam, headers) ∧
      headerSpam (line ++ '\n' :: more) = spam ∧ (spam = false → headers = false) := by
  have ended : ∃ front ending tail, line ++ '\n' :: rest = front ++ ending :: tail ∧
      (ending = '\n' ∨ ending = '\r') ∧ Free '\n' front ∧ Clean front ∧
      blankLine front = blankLine line ∧
      spamFlag.isPrefixOf front = spamFlag.isPrefixOf line := by
    rcases free_or_eq_append_cons '\r' line with whole | ⟨front, tail, noReturn, rfl⟩
    · exact ⟨line, '\n', rest, rfl, .inl rfl, free, ⟨noNul, whole⟩, rfl, rfl⟩
    · have flagged : spamFlag.isPrefixOf (front ++ '\r' :: tail) = spamFlag.isPrefixOf front :=
        isPrefixOf_line (by decide) tail
      have blank : blankLine front = blankLine (front ++ '\r' :: tail) := by
        rw [deciding, Bool.or_eq_true, flagged] at decides
        rcases decides with blank | starts
        · rw [blank]
          rw [blankLine, List.all_append, Bool.and_eq_true] at blank
          exact blank.1
        · rw [blankLine_flag starts, blankLine_flag (flagged.trans starts)]
      refine ⟨front, '\r', tail ++ '\n' :: rest, ?_, .inr rfl, (free_append.mp free).1,
        ⟨fun member => noNul (List.mem_append_left _ member), noReturn⟩, blank, flagged.symm⟩
      rw [List.append_assoc, List.cons_append]
  rcases ended with ⟨front, ending, tail, same, ends, frontFree, clean, sameBlank, sameFlag⟩
  rw [same, scanSpam_whole ends frontFree clean, headerSpam_line free, sameBlank, sameFlag]
  cases blank : blankLine line with
  | true => exact ⟨false, false, rfl, rfl, fun _ => rfl⟩
  | false =>
      rw [deciding, blank, Bool.false_or] at decides
      rw [decides]
      exact ⟨true, true, rfl, rfl, fun same => Bool.noConfusion same⟩

/-- A read that decides does so for the whole message, and whatever is behind it in the
buffer. -/
theorem scanSpam_of_decides {first : List Char} (decides : Decides first) (behind more : List Char) :
    ∃ spam headers, scanSpam (first ++ behind) true (first ++ behind) = .ok (spam, headers) ∧
      headerSpam (first ++ more) = spam ∧ (spam = false → headers = false) := by
  rcases decides with ⟨before, line, lines, whole, decides, noNul, clean⟩
  induction before generalizing first with
  | nil =>
      rcases exists_line whole with ⟨rest, rfl, free, _⟩
      rw [List.append_assoc, List.cons_append, List.append_assoc, List.cons_append]
      exact scanSpam_deciding free noNul decides _ _
  | cons head before induction =>
      rcases exists_line whole with ⟨rest, rfl, free, later⟩
      have headClean := clean head List.mem_cons_self
      rw [List.append_assoc, List.cons_append, List.append_assoc, List.cons_append]
      by_cases earlier : deciding head = true
      · exact scanSpam_deciding free headClean.1 earlier _ _
      · rw [deciding, Bool.or_eq_true, not_or, Bool.not_eq_true, Bool.not_eq_true] at earlier
        have next : (rest ++ behind).head? ≠ some nul := by
          have nextLine : ∃ following lines, (rest.splitOn '\n').dropLast = following :: lines ∧
              nul ∉ following := by
            rw [later]
            cases before with
            | nil => exact ⟨line, lines, rfl, noNul⟩
            | cons second before =>
                exact ⟨second, _, rfl,
                  (clean second (List.mem_cons_of_mem _ List.mem_cons_self)).1⟩
          rcases nextLine with ⟨following, lines, split, noNul⟩
          rcases exists_line split with ⟨last, rfl, _, _⟩
          cases following with
          | nil =>
              intro same
              exact absurd (Option.some.inj same) (by decide)
          | cons char following =>
              intro same
              exact noNul (Option.some.inj same ▸ List.mem_cons_self)
        rw [scanSpam_whole (.inl rfl) free headClean, headerSpam_line free, earlier.1, earlier.2,
          if_neg Bool.false_ne_true, if_neg Bool.false_ne_true, if_neg next,
          if_neg Bool.false_ne_true, Bool.false_or]
        exact induction later fun other member => clean other (List.mem_cons_of_mem _ member)

/-- Behind a read that does not decide, the scan goes on in what the buffer held before. -/
theorem scanSpam_error {first : List Char} (clean : Clean first) (undecided : ¬Decides first)
    (count : Nat) :
    scanSpam (first ++ List.replicate count 'a') true (first ++ List.replicate count 'a') =
      .error .fault := by
  have unended : ∀ text : List Char, Free '\n' text → Clean text → ∀ lineStart blank,
      scanSpam lineStart blank text = .error .fault := by
    intro text free clean
    induction text with
    | nil => exact fun _ _ => rfl
    | cons char text induction =>
        intro lineStart blank
        rw [Clean, List.mem_cons, List.mem_cons, not_or, not_or] at clean
        rw [free_cons] at free
        have notNul : ¬char = nul := fun same => clean.1.1 same.symm
        have notEnd : ¬(char = '\n' ∨ char = '\r') :=
          not_or.mpr ⟨fun same => free.1 same.symm, fun same => clean.2.1 same.symm⟩
        rw [scanSpam, if_neg notNul, if_neg notEnd]
        exact induction free.2 ⟨clean.1.2, clean.2.2⟩ _ _
  have filling : ∀ char ∈ List.replicate count 'a', char = 'a' := fun char member =>
    List.eq_of_mem_replicate member
  have fillingFree : Free '\n' (List.replicate count 'a') := fun member =>
    absurd (filling '\n' member) (by decide)
  have fillingClean : Clean (List.replicate count 'a') :=
    ⟨fun member => absurd (filling nul member) (by decide),
      fun member => absurd (filling '\r' member) (by decide)⟩
  generalize List.replicate count 'a' = behind at *
  generalize size : first.length = length
  induction length using Nat.strong_induction_on generalizing first with
  | _ length induction =>
  rcases free_or_eq_append_cons '\n' first with free | ⟨line, rest, free, rfl⟩
  · apply unended
    · rw [free_append]
      exact ⟨free, fillingFree⟩
    · rw [Clean, List.mem_append, List.mem_append, not_or, not_or]
      exact ⟨⟨clean.1, fillingClean.1⟩, clean.2, fillingClean.2⟩
  · have lineClean : Clean line := ⟨fun member => clean.1 (List.mem_append_left _ member),
      fun member => clean.2 (List.mem_append_left _ member)⟩
    have restClean : Clean rest :=
      ⟨fun member => clean.1 (List.mem_append_right _ (List.mem_cons_of_mem _ member)),
        fun member => clean.2 (List.mem_append_right _ (List.mem_cons_of_mem _ member))⟩
    have split := splitOn_line free rest
    have whole : ((line ++ '\n' :: rest).splitOn '\n').dropLast =
        line :: (rest.splitOn '\n').dropLast := by
      rw [split, List.dropLast_cons_of_ne_nil (List.splitOn_ne_nil '\n' rest)]
    have earlier : ¬deciding line = true := fun decides =>
      undecided ⟨[], line, _, whole, decides, lineClean.1, fun _ member => nomatch member⟩
    have later : ¬Decides rest := by
      rintro ⟨before, other, lines, restWhole, decides, noNul, all⟩
      refine undecided ⟨line :: before, other, lines, ?_, decides, noNul, ?_⟩
      · rw [whole, restWhole]
        rfl
      · intro third member
        rcases List.mem_cons.mp member with rfl | member
        · exact lineClean
        · exact all third member
    have next : (rest ++ behind).head? ≠ some nul := by
      intro same
      have member := List.mem_of_head? same
      rcases List.mem_append.mp member with inside | filled
      · exact restClean.1 inside
      · exact fillingClean.1 filled
    rw [deciding, Bool.or_eq_true, not_or, Bool.not_eq_true, Bool.not_eq_true] at earlier
    have shorter : rest.length < length := by
      rw [← size, List.length_append, List.length_cons]
      omega
    rw [List.append_assoc, List.cons_append, scanSpam_whole (.inl rfl) free lineClean, earlier.1, earlier.2,
      if_neg Bool.false_ne_true, if_neg Bool.false_ne_true, if_neg next]
    exact induction rest.length shorter restClean later rfl

end Scans

/-! ## Messages -/

section Messages

variable {mailer : Mailer} {limits : Limits} {process : Process}

/-- Behind the header nothing is scanned. -/
theorem copyLoop_behind (behind : process.inHeaders = false) (chunks : List (List Char))
    (cells : List Char) :
    copyLoop mailer limits process chunks cells = .ok (chunks.flatten, [], process) := by
  have unchecked : checksSpam mailer limits process = .ok false := by
    rw [checksSpam, behind, Bool.and_false]
    rfl
  induction chunks generalizing cells with
  | nil => rfl
  | cons chunk chunks induction =>
      rw [copyLoop, unchecked]
      simp only [Except.bind, Bool.not_false, if_true, induction, Except.map]
      rfl

theorem detectsSpam_of_firstDecides {chunks : List (List Char)}
    (checks : checksSpam mailer limits process = .ok true) (fresh : process.deleteMail = false)
    (decides : FirstDecides chunks) : DetectsSpam mailer limits process chunks := by
  intro stale _
  cases chunks with
  | nil =>
      refine ⟨_, rfl, ?_⟩
      rw [fresh]
      rfl
  | cons first chunks =>
      rcases scanSpam_of_decides (decides first rfl) (stale.drop first.length) chunks.flatten
        with ⟨spam, headers, scanned, same, ended⟩
      have flat : (first :: chunks).flatten = first ++ chunks.flatten := List.flatten_cons
      rw [flat, same, copyLoop, checks]
      simp only [Except.bind, Bool.not_true, isSpam, scanned, Bool.false_eq_true, if_false]
      cases spam with
      | true => exact ⟨_, rfl, rfl⟩
      | false =>
          have behind : ({ process with inHeaders := headers } : Process).inHeaders = false :=
            ended rfl
          exact ⟨_, by rw [if_neg Bool.false_ne_true, copyLoop_behind behind]; rfl, fresh⟩

/-- In front of a buffer of letters the copy of a clean read that does not decide is a
fault. -/
theorem firstDecides_of_detectsSpam {chunks : List (List Char)}
    (checks : checksSpam mailer limits process = .ok true)
    (clean : ∀ first, chunks.head? = some first → Clean first)
    (detects : DetectsSpam mailer limits process chunks) : FirstDecides chunks := by
  intro first leads
  by_contra undecided
  cases chunks with
  | nil => cases leads
  | cons head chunks =>
      cases Option.some.inj leads
      rcases detects (List.replicate msgBufSize 'a') List.length_replicate with ⟨copied, done, _⟩
      rw [copyLoop, checks] at done
      simp only [Except.bind, Bool.not_true, isSpam, Bool.false_eq_true, if_false,
        List.drop_replicate, scanSpam_error (clean _ leads) undecided] at done
      cases done

/-- Spam is detected if the first read decides, and a clean first read has to. -/
theorem spam_detected (mailer : Mailer) (limits : Limits) (process : Process)
    (chunks : List (List Char)) (checks : checksSpam mailer limits process = .ok true)
    (fresh : process.deleteMail = false) :
    (FirstDecides chunks → DetectsSpam mailer limits process chunks) ∧
      ((∀ first, chunks.head? = some first → Clean first) →
        (DetectsSpam mailer limits process chunks ↔ FirstDecides chunks)) :=
  ⟨detectsSpam_of_firstDecides checks fresh, fun clean =>
    ⟨firstDecides_of_detectsSpam checks clean, detectsSpam_of_firstDecides checks fresh⟩⟩

end Messages

/-! ## A flag in two reads -/

section Sample

def deletingSpam : Mailer where
  switches := ⟨true, false, false, false⟩
  message := "X-Spam-Flag: YES\n\n".toList
  rpline := []
  dtline := none
  bounce := []
  limits := fun _ => ⟨0, 0, 1⟩
  maildirToEmail := fun _ => "a@x.org".toList
  parseEmail := fun _ => ("a".toList, "x.org".toList)
  getpw := fun user domain => ⟨user, domain, some 0⟩
  getpwLong := fun _ => some 0
  spamc := fun _ text => text

def delivering : Process where
  deleteMail := false
  inHeaders := true
  isLocal := true
  vpw := true
  pwGid := 0
  theUser := "a".toList
  theDomain := "x.org".toList
  messageSize := 18
  input := .file "X-Spam-Flag: YES\n\n".toList "X-Spam-Flag: YES\n\n".toList
  deliveries := []

/-- The flag stands in the first read, and the header and the body go on behind it. -/
def flaggedReads : List (List Char) :=
  ["To: b\nX-Spam-Flag: YES\nSub".toList, "ject: c\n\nhe".toList, "llo\n".toList]

/-- The header ends in the first read, and the body has a line like the flag. -/
def bodyReads : List (List Char) :=
  ["To: b\n\nX-Spam-".toList, "Flag: YES\n".toList]

/-- The first read has no whole line. -/
def cutReads : List (List Char) :=
  ["X-Spam-".toList, "Flag: YES\n\n".toList]

theorem spam_detected_reads :
    DetectsSpam deletingSpam ⟨0, 0, 1⟩ delivering flaggedReads ∧
      DetectsSpam deletingSpam ⟨0, 0, 1⟩ delivering bodyReads ∧
        ¬DetectsSpam deletingSpam ⟨0, 0, 1⟩ delivering cutReads := by
  refine ⟨(spam_detected deletingSpam ⟨0, 0, 1⟩ delivering flaggedReads (by decide) rfl).1 ?_,
    (spam_detected deletingSpam ⟨0, 0, 1⟩ delivering bodyReads (by decide) rfl).1 ?_, ?_⟩
  · intro first leads
    rw [← Option.some.inj leads]
    refine ⟨["To: b".toList], spamFlag, [], by decide, by decide, by decide, ?_⟩
    exact List.forall_mem_singleton.mpr ⟨by decide, by decide⟩
  · intro first leads
    rw [← Option.some.inj leads]
    refine ⟨["To: b".toList], [], [], by decide, by decide, by decide, ?_⟩
    exact List.forall_mem_singleton.mpr ⟨by decide, by decide⟩
  · have clean : ∀ first, cutReads.head? = some first → Clean first := by
      intro first leads
      rw [← Option.some.inj leads]
      exact ⟨by decide, by decide⟩
    rw [(spam_detected deletingSpam ⟨0, 0, 1⟩ delivering cutReads (by decide) rfl).2 clean]
    intro decides
    rcases decides _ rfl with ⟨before, line, behind, lines, -⟩
    have none : (("X-Spam-".toList : List Char).splitOn '\n').dropLast = [] := by decide
    rw [none] at lines
    cases List.append_eq_nil_iff.mp lines.symm with
    | intro _ empty => cases empty

/-- The flag is cut by the end of the first read, and NULs follow in the buffer. -/
theorem not_spam_detected :
    ¬∀ (mailer : Mailer) (limits : Limits) (process : Process) (chunks : List (List Char)),
      checksSpam mailer limits process = .ok true → process.deleteMail = false →
        [] ∉ chunks → (∀ chunk ∈ chunks, chunk.length ≤ msgBufSize) →
          DetectsSpam mailer limits process chunks := by
  intro detects
  rcases detects deletingSpam ⟨0, 0, 1⟩ delivering cutReads (by decide) rfl (by decide) (by decide)
    (List.replicate msgBufSize nul) List.length_replicate with ⟨copied, done, spam⟩
  have kept : (copyLoop deletingSpam ⟨0, 0, 1⟩ delivering cutReads
      (List.replicate msgBufSize nul)).map (fun copied => copied.2.2.deleteMail) = .ok false := by
    decide +kernel
  rw [done] at kept
  have missed : copied.2.2.deleteMail = false := Except.ok.inj kept
  have flagged : headerSpam cutReads.flatten = true := by decide
  rw [flagged, missed] at spam
  cases spam

end Sample

end Vpopmail.Vdelivermail

import Vpopmail.VlimitsReads

/-! # The limits file line by line

Behind the reader of the limits file stands another one, which is compiled out: `fgets` hands it
a line, and `strtok` the tokens of the line.
-/

namespace Vpopmail

open Text Vpopmail.Stream Buffer LimitsReader

/-- `TOKENS`. -/
def limitsTokens (char : Char) : Bool := settingDelimits char || lineEnd char

/-- What the disabled loop makes of a line. -/
def referenceLine (limits : Vlimits) (line : List Char) : Vlimits :=
  if line.head? = some '#' then limits
  else
    match strtok limitsTokens line with
    | none => limits
    | some (name, rest) =>
        match settingOf name with
        | none => limits
        | some setting => setting.apply limits ((strtok limitsTokens rest).map Prod.fst)

/-- The disabled loop. -/
def referenceParser (text : List Char) (limits : Vlimits) : Vlimits :=
  (fgetsLoop limitsBufSize text).foldl
    (fun limits chunk => referenceLine limits (cstring chunk)) limits

/-- The lines one by one, whether they end in a newline or a carriage return. -/
def lineByLine (text : List Char) (limits : Vlimits) : Vlimits :=
  (text.splitOnP lineEnd).foldl referenceLine limits

/-- A setting at the start of its line is a flag or stands alone, or has a value that reads the
same with what follows it on the line. One behind a separator is no flag and has no value. -/
def PlainLine (line : List Char) : Prop :=
  line.head? = some '#' ∨
    ∀ name rest setting, strtok limitsTokens line = some (name, rest) →
      settingOf name = some setting →
        if line.head?.any limitsTokens then
          (∀ which, setting ≠ .flag which) ∧ strtok limitsTokens rest = none
        else
          (∃ which, setting = .flag which) ∨ line = name ∨
            ∃ value more, strtok limitsTokens rest = some (value, more) ∧
              ∀ limits, setting.read limits (rest.dropWhile limitsTokens) =
                setting.read limits value

/-! ## Lines -/

/-- Reading a setting again overwrites it. -/
theorem Setting.read_read (setting : Setting) (limits : Vlimits) (value other : List Char) :
    setting.read (setting.read limits value) other = setting.read limits other := by
  cases setting with
  | flag which => cases which <;> rfl
  | _ => rfl

/-- A setting that is read can be told from one that is not. -/
theorem Setting.exists_read_ne (setting : Setting) (value : List Char) :
    ∃ limits, setting.read limits value ≠ limits := by
  by_contra all
  rw [not_exists] at all
  have same : ∀ limits, setting.read limits value = limits := fun limits => not_not.mp (all limits)
  by_cases flag : ∃ which, setting = .flag which
  · rcases flag with ⟨which, rfl⟩
    have set : which.get (which.set (which.set vdefaultLimits 0) 1) =
        which.get (which.set vdefaultLimits 0) := congrArg which.get (same _)
    revert set
    cases which <;> decide
  · -- what is read is neither of two numbers
    have either : ∀ other, setting.read vdefaultLimits value = setting.read vdefaultLimits other := by
      intro other
      rw [← setting.read_read vdefaultLimits other value]
      exact same _
    have equal := (either ['1']).symm.trans (either ['2'])
    revert equal
    cases setting with
    | flag which => exact absurd ⟨which, rfl⟩ flag
    | _ => decide

/-- Without a value only a flag does what it does with one. -/
theorem Setting.read_eq_apply_none_iff (setting : Setting) (value : List Char) :
    (∀ limits, setting.read limits value = setting.apply limits none) ↔
      ∃ which, setting = .flag which := by
  constructor
  · intro same
    by_contra other
    rcases setting.exists_read_ne value with ⟨limits, changed⟩
    rw [same] at changed
    cases setting with
    | flag which => exact other ⟨which, rfl⟩
    | _ => exact changed rfl
  · rintro ⟨which, rfl⟩ limits
    rfl

section Lines

variable {line : List Char}

theorem limitsTokens_inLine (inside : InLine line) :
    ∀ char ∈ line, limitsTokens char = settingDelimits char := by
  intro char member
  rw [limitsTokens, not_lineEnd_of_inLine inside char member, Bool.or_false]

theorem dropWhile_limitsTokens (inside : InLine line) :
    line.dropWhile settingDelimits = line.dropWhile limitsTokens := by
  have same := limitsTokens_inLine inside
  clear inside
  induction line with
  | nil => rfl
  | cons char line induction =>
      have others := induction fun other member => same other (List.mem_cons_of_mem _ member)
      rw [List.dropWhile_cons, List.dropWhile_cons, same char List.mem_cons_self, others]

/-- A line that begins with a separator names nothing. -/
theorem applyLine_separator {stop : Char} (stops : settingDelimits stop = true)
    (rest : List Char) (limits : Vlimits) : applyLine limits (stop :: rest) = limits := by
  have nothing : settingOf [] = none := rfl
  have split : (splitSetting (stop :: rest)).1 = [] := by
    rw [splitSetting, List.takeWhile_cons_of_neg (by rw [stops]; decide)]
  rw [applyLine]
  split
  · rfl
  · simp only [split, nothing]

/-- The parsers agree on a setting behind a separator if the disabled one passes over it. -/
theorem separator_iff {stop : Char} {more : List Char} (stops : limitsTokens stop = true)
    (delimits : settingDelimits stop = true) (comment : (stop :: more).head? ≠ some '#') :
    (∀ limits, applyLine limits (stop :: more) = referenceLine limits (stop :: more)) ↔
      PlainLine (stop :: more) := by
  have behind : ((stop :: more).head?.any limitsTokens) = true := stops
  simp only [applyLine_separator delimits, PlainLine, behind, if_true, comment, false_or]
  simp only [referenceLine, if_neg comment]
  cases read : strtok limitsTokens (stop :: more) with
  | none => exact iff_of_true (fun _ => rfl) nofun
  | some found =>
      rcases found with ⟨name, rest⟩
      simp only
      cases named : settingOf name with
      | none =>
          refine iff_of_true (fun _ => rfl) ?_
          rintro _ _ setting ⟨⟩ known
          cases named.symm.trans known
      | some setting =>
          have only : (∀ other rest' setting', some (name, rest) = some (other, rest') →
              settingOf other = some setting' → (∀ which, setting' ≠ .flag which) ∧
                strtok limitsTokens rest' = none) ↔
              (∀ which, setting ≠ .flag which) ∧ strtok limitsTokens rest = none := by
            constructor
            · exact fun all => all name rest setting rfl named
            · rintro both _ _ _ ⟨⟩ known
              cases named.symm.trans known
              exact both
          rw [only]
          cases value : strtok limitsTokens rest with
          | none =>
              cases setting with
              | flag which =>
                  refine iff_of_false (fun same => ?_) fun both => both.1 which rfl
                  rcases (Setting.flag which).exists_read_ne [] with ⟨limits, changed⟩
                  exact changed (same limits).symm
              | _ => exact iff_of_true (fun _ => rfl) ⟨nofun, rfl⟩
          | some token =>
              refine iff_of_false (fun same => ?_) fun both => nomatch both.2
              rcases setting.exists_read_ne token.1 with ⟨limits, changed⟩
              exact changed (same limits).symm

theorem plainLine_nil : PlainLine [] := by
  right
  rintro name rest setting ⟨⟩

/-- No letter of a token ends the name of a setting. -/
theorem not_settingDelimits {token rest : List Char} (inside : InLine (token ++ rest))
    (letters : ∀ char ∈ token, limitsTokens char = false) :
    ∀ char ∈ token, (!settingDelimits char) = true := by
  intro char member
  rw [← limitsTokens_inLine inside char (List.mem_append_left _ member), letters char member]
  rfl

/-- A setting in front of a separator is read the same by both if it is a flag, or if its value
reads the same with what follows it. -/
theorem setting_iff {head stop : Char} {token more : List Char}
    (letters : ∀ char ∈ head :: token, limitsTokens char = false)
    (stops : limitsTokens stop = true) (inside : InLine (head :: token ++ stop :: more))
    (comment : (head :: token ++ stop :: more).head? ≠ some '#') :
    (∀ limits, applyLine limits (head :: token ++ stop :: more) =
      referenceLine limits (head :: token ++ stop :: more)) ↔
        PlainLine (head :: token ++ stop :: more) := by
  have tokenInside := not_settingDelimits inside letters
  have begins : ¬(head :: token ++ stop :: more = [] ∨
      (head :: token ++ stop :: more).head? = some '#') :=
    not_or.mpr ⟨List.cons_ne_nil _ _, comment⟩
  have plain : ¬((head :: token ++ stop :: more).head?.any limitsTokens) = true := by
    rw [List.cons_append, List.head?_cons, Option.any_some, letters head List.mem_cons_self]
    exact Bool.false_ne_true
  have delimits := stops
  rw [limitsTokens_inLine inside stop (List.mem_append_right _ List.mem_cons_self)] at delimits
  have split : splitSetting (head :: token ++ stop :: more) =
      (head :: token, some (more.dropWhile settingDelimits)) := by
    rw [splitSetting, List.takeWhile_append_of_pos tokenInside,
      List.dropWhile_append_of_pos tokenInside]
    simp [delimits]
  have read : strtok limitsTokens (head :: token ++ stop :: more) = some (head :: token, more) :=
    strtok_token_append (letters head List.mem_cons_self)
      (fun char member => letters char (List.mem_cons_of_mem _ member)) stops more
  have moreInside : InLine more := by
    apply List.all_eq_true.mpr
    intro char member
    exact List.all_eq_true.mp inside char
      (List.mem_append_right _ (List.mem_cons_of_mem _ member))
  have longer : head :: token ++ stop :: more ≠ head :: token := by
    intro alone
    have size := congrArg List.length alone
    rw [List.length_append, List.length_cons, List.length_cons] at size
    omega
  simp only [PlainLine, comment, false_or, if_neg plain]
  simp only [applyLine, if_neg begins, referenceLine, if_neg comment]
  rw [split, read, dropWhile_limitsTokens moreInside]
  simp only
  cases named : settingOf (head :: token) with
  | none =>
      refine iff_of_true (fun _ => rfl) ?_
      rintro _ _ _ ⟨⟩ known
      cases named.symm.trans known
  | some setting =>
      have only : (∀ other rest setting', some (head :: token, more) = some (other, rest) →
          settingOf other = some setting' →
            (∃ which, setting' = .flag which) ∨ head :: token ++ stop :: more = other ∨
              ∃ value behind, strtok limitsTokens rest = some (value, behind) ∧
                ∀ limits, setting'.read limits (rest.dropWhile limitsTokens) =
                  setting'.read limits value) ↔
          (∃ which, setting = .flag which) ∨
            ∃ value behind, strtok limitsTokens more = some (value, behind) ∧
              ∀ limits, setting.read limits (more.dropWhile limitsTokens) =
                setting.read limits value := by
        constructor
        · intro all
          exact (all _ more setting rfl named).imp_right (·.resolve_left longer)
        · rintro either _ _ _ ⟨⟩ known
          cases named.symm.trans known
          exact either.imp_right .inr
      rw [only]
      cases value : strtok limitsTokens more with
      | none =>
          simp only [reduceCtorEq, false_and, exists_false, or_false]
          exact setting.read_eq_apply_none_iff _
      | some found =>
          constructor
          · exact fun same => .inr ⟨found.1, found.2, rfl, same⟩
          · rintro (⟨which, rfl⟩ | ⟨_, _, ⟨⟩, same⟩)
            · exact fun _ => rfl
            · exact same

/-- The parsers agree on exactly the plain lines. -/
theorem applyLine_eq_referenceLine_iff (inside : InLine line) :
    (∀ limits, applyLine limits line = referenceLine limits line) ↔ PlainLine line := by
  by_cases comment : line.head? = some '#'
  · refine iff_of_true (fun limits => ?_) (.inl comment)
    rw [applyLine, if_pos (.inr comment), referenceLine, if_pos comment]
  · rcases token_or_more limitsTokens line with ⟨token, rest, rfl, letters, ended⟩
    have tokenInside := not_settingDelimits inside letters
    cases token with
    | nil =>
        rcases ended with rfl | ⟨stop, more, rfl, stops⟩
        · exact iff_of_true (fun _ => rfl) plainLine_nil
        · have delimits := stops
          rw [limitsTokens_inLine inside stop List.mem_cons_self] at delimits
          exact separator_iff stops delimits comment
    | cons head token =>
        rcases ended with rfl | ⟨stop, more, rfl, stops⟩
        · -- a name alone, for which both parsers have no value
          have split : splitSetting (head :: token) = (head :: token, none) := by
            rw [splitSetting, List.takeWhile_eq_self_iff.mpr tokenInside,
              List.dropWhile_eq_nil_iff.mpr tokenInside]
          have read : strtok limitsTokens (head :: token) = some (head :: token, []) :=
            strtok_token (List.cons_ne_nil _ _) letters
          have plain : ¬((head :: token).head?.any limitsTokens) = true := by
            rw [List.head?_cons, Option.any_some, letters head List.mem_cons_self]
            exact Bool.false_ne_true
          rw [List.append_nil] at comment ⊢
          constructor
          · intro _
            right
            rintro name rest setting found -
            rw [read] at found
            cases found
            rw [if_neg plain]
            exact .inr (.inl rfl)
          · intro _ limits
            rw [applyLine, if_neg (not_or.mpr ⟨List.cons_ne_nil _ _, comment⟩), split,
              referenceLine, if_neg comment, read]
            rfl
        · exact setting_iff letters stops inside comment

end Lines

/-! ## Texts -/

/-- Carriage returns stand at the ends of lines only. -/
def ReturnsLast (text : List Char) : Prop :=
  ∀ body ∈ fileLines text, '\r' ∉ body.rdropWhile (· = '\r')

section Texts

variable {body ends text : List Char}

theorem referenceLine_append (delimits : ∀ char ∈ ends, limitsTokens char = true)
    (limits : Vlimits) (line : List Char) :
    referenceLine limits (line ++ ends) = referenceLine limits line := by
  have sameComment : (line ++ ends).head? = some '#' ↔ line.head? = some '#' := by
    cases line with
    | cons head line => exact Iff.rfl
    | nil =>
        cases ends with
        | nil => exact Iff.rfl
        | cons stop ends =>
            have stops := delimits stop List.mem_cons_self
            constructor
            · intro same
              rw [Option.some.inj same] at stops
              cases stops
            · intro none
              cases none
  rw [referenceLine, referenceLine]
  by_cases comment : line.head? = some '#'
  · rw [if_pos comment, if_pos (sameComment.mpr comment)]
  · rw [if_neg comment, if_neg (mt sameComment.mp comment)]
    cases read : strtok limitsTokens line with
    | none => rw [strtok_append_none delimits read]
    | some found =>
        rcases strtok_append_some delimits read with ⟨more, moreDelimits, again⟩
        rw [again]
        cases named : settingOf found.1 with
        | none => simp only [named]
        | some setting =>
            simp only [named]
            cases value : strtok limitsTokens found.2 with
            | none => rw [strtok_append_none moreDelimits value]
            | some token =>
                rcases strtok_append_some moreDelimits value with ⟨_, _, same⟩
                rw [same]
                rfl

theorem lineByLine_append (front rest : List Char) {ending : Char} (stops : lineEnd ending = true)
    (limits : Vlimits) :
    lineByLine (front ++ ending :: rest) limits = lineByLine rest (lineByLine front limits) := by
  rw [lineByLine, List.splitOnP_append_cons front rest stops, List.foldl_append, lineByLine,
    lineByLine]

theorem lineByLine_single (plain : ∀ char ∈ body, lineEnd char = false) (limits : Vlimits) :
    lineByLine body limits = referenceLine limits body := by
  rw [lineByLine, List.splitOnP_eq_singleton plain]
  rfl

/-- Carriage returns behind a line begin empty lines. -/
theorem lineByLine_returns (returns : ∀ char ∈ ends, char = '\r') (front : List Char)
    (limits : Vlimits) : lineByLine (front ++ ends) limits = lineByLine front limits := by
  induction ends generalizing front limits with
  | nil => rw [List.append_nil]
  | cons char ends induction =>
      rcases List.forall_mem_cons.mp returns with ⟨rfl, others⟩
      have nothing : ∀ limits, lineByLine [] limits = limits := fun _ => rfl
      have empty := induction others [] (lineByLine front limits)
      rw [List.nil_append, nothing] at empty
      rw [lineByLine_append front ends (by rfl), empty]

theorem lineByLine_body (free : Free '\n' body) (returns : '\r' ∉ body.rdropWhile (· = '\r'))
    (limits : Vlimits) : lineByLine body limits = referenceLine limits body := by
  have whole := List.rdropWhile_append_rtakeWhile (p := (· = '\r')) (l := body)
  have tail : ∀ char ∈ body.rtakeWhile (· = '\r'), char = '\r' := by
    intro char member
    simpa using List.mem_rtakeWhile_imp member
  have plain : ∀ char ∈ body.rdropWhile (· = '\r'), lineEnd char = false := by
    intro char member
    have inBody : char ∈ body := whole ▸ List.mem_append_left _ member
    have notNewline : char ≠ '\n' := fun same => free (same ▸ inBody)
    have notReturn : char ≠ '\r' := fun same => returns (same ▸ member)
    simp [lineEnd, notNewline, notReturn]
  have delimits : ∀ char ∈ body.rtakeWhile (· = '\r'), limitsTokens char = true := by
    intro char member
    rw [tail char member]
    rfl
  rw [← whole, lineByLine_returns tail, lineByLine_single plain, referenceLine_append delimits]

/-- The disabled parser reads a text line by line. -/
theorem referenceParser_eq_lineByLine (noNul : nul ∉ text)
    (fits : ∀ line ∈ wholeLines text, line.length < limitsBufSize) (returns : ReturnsLast text)
    (limits : Vlimits) : referenceParser text limits = lineByLine text limits := by
  have strings : ∀ chunk ∈ wholeLines text, cstring chunk = chunk := by
    intro chunk member
    apply cstring_of_free
    intro inside
    rw [← wholeLines_flatten text] at noNul
    exact noNul (List.mem_flatten_of_mem member inside)
  rw [referenceParser, fgetsLoop_wholeLines (by decide) fits]
  clear fits noNul
  induction text using lines_induction generalizing limits with
  | empty => rfl
  | last body free nonempty =>
      rw [wholeLines_of_free free nonempty] at strings ⊢
      rw [ReturnsLast, fileLines_of_free free nonempty] at returns
      rw [List.foldl_cons, List.foldl_nil, strings body List.mem_cons_self,
        lineByLine_body free (returns body List.mem_cons_self)]
  | line body rest free induction =>
      rw [wholeLines_line free] at strings ⊢
      rw [ReturnsLast, fileLines_line free] at returns
      have delimits : ∀ char ∈ ['\n'], limitsTokens char = true :=
        List.forall_mem_singleton.mpr rfl
      rw [List.foldl_cons, strings _ List.mem_cons_self, referenceLine_append delimits,
        lineByLine_append body rest (by rfl), lineByLine_body free (returns body List.mem_cons_self)]
      exact induction (fun other member => returns other (List.mem_cons_of_mem _ member)) _
        fun chunk member => strings chunk (List.mem_cons_of_mem _ member)

end Texts

/-! ## Files -/

/-- Whatever the buffer and the limits are at first, the file comes to its lines one by one. -/
def ReadsLines (reads : List (List Char)) : Prop :=
  ∀ (buf : List Char) (limits : Vlimits), buf.length = limitsBufSize →
    vlimitsReadLimitsFrom buf reads limits = some (.ok (0, lineByLine reads.flatten limits))

/-- There is room for the file with its terminator, and for what `memmove` copies at its end. -/
def FitsBuffer (reads : List (List Char)) : Prop :=
  reads.flatten.length < limitsBufSize ∧
    ((started reads).length ≤ lineEnds reads.flatten ∨
      reads.flatten.length + (reads.flatten.length - lastLength reads.flatten) ≤ limitsBufSize)

section Files

variable {reads : List (List Char)}

theorem applyLines_eq_lineByLine {text : List Char} (noNul : nul ∉ text)
    (plain : ∀ line ∈ text.splitOnP lineEnd, PlainLine line) (limits : Vlimits) :
    applyLines text limits = lineByLine text limits := by
  induction count : text.length using Nat.strongRecOn generalizing text limits with
  | ind size induction =>
      rcases inLine_or_line noNul with inside | ⟨line, ending, rest, rfl, inside, ends⟩
      · have single := not_lineEnd_of_inLine inside
        rw [List.splitOnP_eq_singleton single] at plain
        rw [applyLines_inLine inside, lineByLine_single single,
          (applyLine_eq_referenceLine_iff inside).mpr (plain text List.mem_cons_self)]
      · have single := not_lineEnd_of_inLine inside
        rw [List.splitOnP_append_cons_of_forall_mem single ending ends] at plain
        rcases List.forall_mem_cons.mp plain with ⟨first, others⟩
        have shorter : rest.length < size := by
          rw [← count, List.length_append, List.length_cons]
          omega
        have noNulRest : nul ∉ rest := fun member =>
          noNul (List.mem_append_right _ (List.mem_cons_of_mem _ member))
        rw [applyLines_line inside ends, lineByLine_append line rest ends,
          lineByLine_single single, (applyLine_eq_referenceLine_iff inside).mpr first]
        exact induction rest.length shorter noNulRest others _ rfl

/-- An empty file leaves the buffer as it was, and that is parsed. -/
theorem not_readsLines_nil : ¬ReadsLines [] := by
  intro reads
  let stale := "disable_pop".toList ++ List.replicate (limitsBufSize - 11) nul
  have read := reads stale vdefaultLimits (by decide +kernel)
  exact absurd read (by decide +kernel)

theorem outcome_of_fitsBuffer (fits : FitsBuffer reads) (limits : Vlimits) :
    outcome 0 reads.flatten (started reads).length limits =
      some (.ok (0, applyLines reads.flatten limits)) := by
  rw [FitsBuffer] at fits
  simp only [outcome, Nat.zero_add]
  exact if_pos fits

theorem outcome_of_not_fitsBuffer (beyond : ¬FitsBuffer reads) (limits : Vlimits) :
    outcome 0 reads.flatten (started reads).length limits = some (.error .outOfBounds) := by
  rw [FitsBuffer] at beyond
  simp only [outcome, Nat.zero_add]
  exact if_neg beyond

/-- A file that is read at a good pace comes to its lines exactly when it is not empty and fits,
and this is what the disabled parser makes of it. -/
theorem readsLines_iff (reads : List (List Char)) (parts : [] ∉ reads)
    (noNul : nul ∉ reads.flatten) (pace : KeepsPace 0 (started reads))
    (plain : ∀ line ∈ reads.flatten.splitOnP lineEnd, PlainLine line) :
    (ReadsLines reads ↔ reads ≠ [] ∧ FitsBuffer reads) ∧
      ((∀ line ∈ wholeLines reads.flatten, line.length < limitsBufSize) →
        ReturnsLast reads.flatten → ∀ limits,
          lineByLine reads.flatten limits = referenceParser reads.flatten limits) := by
  constructor
  · constructor
    · intro right
      have filled : reads ≠ [] := by
        rintro rfl
        exact not_readsLines_nil right
      refine ⟨filled, ?_⟩
      by_contra beyond
      have read := right (List.replicate limitsBufSize nul) vdefaultLimits List.length_replicate
      rw [vlimitsReadLimitsFrom_eq parts filled noNul pace,
        outcome_of_not_fitsBuffer beyond] at read
      cases read
    · rintro ⟨filled, fits⟩ buf limits _
      rw [vlimitsReadLimitsFrom_eq parts filled noNul pace, outcome_of_fitsBuffer fits,
        applyLines_eq_lineByLine noNul plain]
  · intro fits returns limits
    exact (referenceParser_eq_lineByLine noNul fits returns limits).symm

theorem plainLine_of_value {line name rest value more : List Char}
    (starts : line.head?.any limitsTokens = false)
    (read : strtok limitsTokens line = some (name, rest))
    (found : strtok limitsTokens rest = some (value, more))
    (last : rest.dropWhile limitsTokens = value) : PlainLine line := by
  right
  intro other behind setting again _
  rw [read] at again
  cases again
  rw [if_neg (Bool.eq_false_iff.mp starts)]
  refine .inr (.inr ⟨value, more, found, fun limits => ?_⟩)
  rw [last]

def twoReads : List (List Char) := ["maxaliases 5\nmaxfor".toList, "wards: 7\r\n".toList]

/-- A line that goes on in the second read. -/
theorem readsLines_twoReads : ReadsLines twoReads := by
  have pace : KeepsPace 0 (started twoReads) := by
    have all : started twoReads = twoReads := by decide
    rw [all]
    intro front behind same more
    match front with
    | [] => exact Nat.zero_le _
    | [first] =>
        cases (List.cons.inj same).1
        decide
    | first :: second :: others =>
        have rest := (List.cons.inj (List.cons.inj same).2).2
        exact absurd (List.append_eq_nil_iff.mp rest.symm).2 more
  have lines : twoReads.flatten.splitOnP lineEnd =
      ["maxaliases 5".toList, "maxforwards: 7".toList, [], []] := by
    decide
  have plain : ∀ line ∈ twoReads.flatten.splitOnP lineEnd, PlainLine line := by
    rw [lines]
    intro line member
    simp only [List.mem_cons, List.not_mem_nil, or_false] at member
    rcases member with rfl | rfl | rfl | rfl
    · exact @plainLine_of_value _ "maxaliases".toList "5".toList "5".toList [] (by decide)
        (by decide) (by decide) (by decide)
    · exact @plainLine_of_value _ "maxforwards".toList " 7".toList "7".toList [] (by decide)
        (by decide) (by decide) (by decide)
    · exact plainLine_nil
    · exact plainLine_nil
  exact (readsLines_iff twoReads (by decide) (by decide) pace plain).1.mpr
    ⟨by decide, by decide, .inl (by decide)⟩

/-- The second read ends inside a line, and the third one is lost. -/
theorem not_readsLines :
    ¬∀ reads : List (List Char), [] ∉ reads → nul ∉ reads.flatten →
      (∀ line ∈ wholeLines reads.flatten, line.length < limitsBufSize) →
        ReadsLines reads := by
  intro right
  have read := right ["disable_pop\ndis".toList, "able_".toList, "imap\n".toList] (by decide)
    (by decide) (by decide) (List.replicate limitsBufSize nul) vdefaultLimits List.length_replicate
  exact absurd read (by decide +kernel)

end Files

end Vpopmail

import Vpopmail.EmailParsing
import Vpopmail.Ezmlm

/-! # Staying inside the structure of a mailing list

Which addresses, domains and files `listInit` opens a list for without writing outside of a field
or passing a null pointer on, and what becomes of the `Reply-To` address.
-/

namespace Vpopmail.Ezmlm

open Text Vpopmail.Stream Buffer
open Vlistlib (maxName maxFileName qmailName sprintf)

/-! ## Fields -/

section Fields

variable {field after : Field} {text line token : List Char} {start bound : Nat}

theorem inside_write : Inside (field.write text) ↔ text.length < maxName := by
  unfold Field.write
  split
  next short => exact iff_of_true (inside_ok _) short
  next long => exact iff_of_false (not_inside_error _) long

theorem text_write (written : field.write text = .ok after) : after.text = cstring text := by
  unfold Field.write at written
  split at written
  · cases written
    exact cstring_append_nul_any text _
  · cases written

theorem copyCells_ok {cells : List Char} {i : Nat} (begun : i ≤ bound)
    (room : bound < i + cells.length) (read : bound + start ≤ line.length) :
    ∃ behind, copyCells start bound line i cells =
      .ok ((line.drop (i + start)).take (bound - i) ++ nul :: behind) := by
  induction cells generalizing i with
  | nil =>
      rw [List.length_nil] at room
      omega
  | cons cell cells induction =>
      rw [List.length_cons] at room
      rw [copyCells]
      by_cases more : i < bound
      · have inside : i + start < line.length := by omega
        have next : i + 1 ≤ bound := more
        have left : bound < i + 1 + cells.length := by omega
        rcases induction next left with ⟨behind, copied⟩
        have taken : bound - i = bound - (i + 1) + 1 := by omega
        refine ⟨behind, ?_⟩
        rw [if_pos more, List.getElem?_eq_getElem inside]
        simp only
        rw [copied, taken, List.drop_eq_getElem_cons inside, List.take_succ_cons,
          Nat.add_right_comm i 1 start]
        rfl
      · have none_ : bound - i = 0 := by omega
        refine ⟨cells, ?_⟩
        rw [if_neg more, none_, List.take_zero]
        rfl

theorem copyCells_error {cells : List Char} {i : Nat} (long : i + cells.length ≤ bound) :
    copyCells start bound line i cells = .error .outOfBounds := by
  induction cells generalizing i with
  | nil => rfl
  | cons cell cells induction =>
      rw [List.length_cons] at long
      have more : i < bound := by omega
      have later : i + 1 + cells.length ≤ bound := by omega
      rw [copyCells, if_pos more]
      split
      · rfl
      · rw [induction later]
        rfl

theorem copy_ok (room : bound < maxName) (read : bound + start ≤ line.length) :
    ∃ after, field.copy start bound line = .ok after ∧
      after.text = cstring ((line.drop start).take bound) := by
  have inside : bound < 0 + field.val.length := by
    rw [field.property, Nat.zero_add]
    exact room
  rcases copyCells_ok (Nat.zero_le bound) inside read with ⟨behind, copied⟩
  unfold Field.copy
  split
  next fault failed =>
    rw [copied] at failed
    cases failed
  next cells done =>
    rw [copied, Nat.zero_add, Nat.sub_zero] at done
    cases done
    exact ⟨_, rfl, cstring_append_nul_any _ behind⟩

theorem not_inside_copy (long : maxName ≤ bound) : ¬Inside (field.copy start bound line) := by
  have failed : copyCells start bound line 0 field.val = .error .outOfBounds := by
    apply copyCells_error
    rw [field.property, Nat.zero_add]
    exact long
  unfold Field.copy
  split
  next fault _ => exact not_inside_error fault
  next cells done =>
    rw [failed] at done
    cases done

theorem inside_copyToken {token : Option (List Char)} :
    Inside (field.copyToken token) ↔ ∀ text ∈ token, text.length < maxName := by
  cases token with
  | none =>
      refine iff_of_true (inside_ok field) ?_
      intro text member
      cases member
  | some token =>
      constructor
      · intro inside text member
        cases member
        exact Nat.not_le.mp fun long => not_inside_copy long inside
      · intro fits
        have read : token.length + 0 ≤ (token ++ [nul]).length := by
          rw [List.length_append]
          exact Nat.le_add_right _ _
        rcases @copy_ok field _ 0 _ (fits token rfl) read with ⟨after, copied, -⟩
        exact ⟨after, copied⟩

end Fields

/-! ## Lines -/

section Lines

variable {found : Decoding} {list : ListInfoType} {site : Site} {line program : List Char}

/-- A line that names a program has a blank. -/
def HasBlank (program line : List Char) : Prop := program <:+: line → ' ' ∈ line

theorem inside_ezmlmGetArgs (argument : Char) :
    Inside (ezmlmGetArgs line program argument) ↔ HasBlank program line := by
  unfold ezmlmGetArgs
  split
  next named =>
    split
    next blank => exact iff_of_true (inside_ok _) fun _ => blank
    next solid => exact iff_of_false (not_inside_error _) fun has => solid (has named)
  next other => exact iff_of_true (inside_ok _) fun named => absurd named other

theorem inside_defaultLine :
    Inside (defaultLine found line) ↔ HasBlank ezmlmGet line ∧ HasBlank ezmlmManage line := by
  have steps : Inside (defaultLine found line) ↔
      HasBlank ezmlmGet line ∧ HasBlank ezmlmGet line ∧ HasBlank ezmlmManage line ∧
        HasBlank ezmlmManage line ∧ HasBlank ezmlmManage line ∧ HasBlank ezmlmManage line ∧
        True := by
    apply inside_bind (inside_ezmlmGetArgs 'P')
    intro block _
    apply inside_bind (inside_ezmlmGetArgs 's')
    intro guard _
    apply inside_bind (inside_ezmlmGetArgs 'S')
    intro subConf _
    apply inside_bind (inside_ezmlmGetArgs 'U')
    intro unsubConf _
    apply inside_bind (inside_ezmlmGetArgs 'l')
    intro remoteSub _
    apply inside_bind (inside_ezmlmGetArgs 'e')
    exact fun _ _ => inside_last _
  rw [steps]
  constructor
  · exact fun all => ⟨all.1, all.2.2.1⟩
  · exact fun both => ⟨both.1, both.1, both.2, both.2, both.2, both.2, trivial⟩

theorem inside_qmailLine : Inside (qmailLine found line) ↔ HasBlank ezmlmStore line := by
  have steps : Inside (qmailLine found line) ↔ HasBlank ezmlmStore line ∧ True := by
    apply inside_bind (inside_ezmlmGetArgs 'P')
    exact fun _ _ => inside_last _
  rw [steps, and_true]

/-- The line has a token, and the tokens that are kept fit their fields. -/
def SqlLine (line : List Char) : Prop :=
  sqlTokens line ≠ [] ∧
    ∀ position ∈ [0, 2, 3, 4, 5], ∀ token ∈ (sqlTokens line)[position]?, token.length < maxName

theorem inside_sqlLine : Inside (sqlLine list line) ↔ SqlLine line := by
  unfold sqlLine SqlLine
  split
  next none_ => exact iff_of_false (not_inside_error _) fun both => both.1 none_
  next some_ =>
    rw [and_iff_right some_]
    simp only [List.forall_mem_cons]
    apply inside_bind inside_copyToken
    intro sqlHost _
    apply inside_bind inside_copyToken
    intro sqlUser _
    apply inside_bind inside_copyToken
    intro sqlPass _
    apply inside_bind inside_copyToken
    intro sqlBase _
    apply inside_bind inside_copyToken
    exact fun _ _ => iff_of_true (inside_ok _) (List.forall_mem_nil _)

theorem inside_prefixFile (file : Option (List Char)) : Inside (prefixFile list file) := by
  unfold prefixFile
  split
  · exact inside_ok _
  · split
    · exact inside_ok _
    next chunk rest read =>
      rw [inside_map, inside_write]
      exact length_fgets (by decide) read

theorem inside_sqlFile {file : Option (List Char)} :
    Inside (sqlFile list file) ↔
      ∀ text ∈ file, ∀ read ∈ fgets maxBuff text, SqlLine (cstring read.1) := by
  unfold sqlFile
  split
  next =>
    refine iff_of_true (inside_ok _) ?_
    intro text member
    cases member
  next text =>
    split
    next ended =>
      refine iff_of_true (inside_ok _) ?_
      intro other member read found
      cases member
      rw [ended] at found
      cases found
    next chunk rest read =>
      rw [inside_sqlLine]
      constructor
      · intro safe other member got found
        cases member
        rw [read] at found
        cases found
        exact safe
      · intro safe
        exact safe text rfl (chunk, rest) read

/-- A line with `Reply-To:` that is not that of the list is long enough for what is subtracted
from its length, and not too long for the field. -/
def HeaderLine (line : List Char) : Prop :=
  replyToText <:+: line → ¬"<#l#>@<#h#>".toList <:+: line →
    11 ≤ line.length ∧ line.length < maxName + 11

theorem subtracted_lt_iff {size : Nat} (short : size < maxBuff) :
    subtracted size 11 < maxName ↔ 11 ≤ size ∧ size < maxName + 11 := by
  have buff : maxBuff = 300 := rfl
  have name : maxName = 160 := rfl
  rw [subtracted]
  omega

theorem length_lineCells (line : List Char) : maxBuff ≤ (lineCells site line).length := by
  rw [lineCells, List.length_append, List.length_cons, List.length_map, List.length_range]
  omega

theorem inside_headerLine (short : line.length < maxBuff) :
    Inside (headerLine site list line) ↔ HeaderLine line := by
  unfold headerLine HeaderLine
  split
  next named =>
    split
    next own => exact iff_of_true (inside_ok _) fun _ other => absurd own other
    next other =>
      rw [inside_map, forall_prop_of_true named, forall_prop_of_true other,
        ← subtracted_lt_iff short]
      constructor
      · exact fun inside => Nat.not_le.mp fun long => not_inside_copy long inside
      · intro fits
        have cells : subtracted line.length 11 + 10 ≤ (lineCells site line).length := by
          have least := @length_lineCells site line
          have buff : maxBuff = 300 := rfl
          have name : maxName = 160 := rfl
          omega
        rcases @copy_ok list.replyToAddr _ 10 _ fits cells with ⟨after, copied, -⟩
        exact ⟨after, copied⟩
  next unnamed => exact iff_of_true (inside_ok _) fun named => absurd named unnamed

theorem length_line {text : List Char} (member : line ∈ lines text) : line.length < maxBuff := by
  rcases List.mem_map.mp member with ⟨chunk, inside, rfl⟩
  exact Nat.lt_of_le_of_lt (length_cstring_le chunk) (chunk_of_mem_fgetsLoop (by decide) inside).1

end Lines

/-! ## Files -/

section Files

variable {site : Site} {list after : ListInfoType}

theorem length_text (field : Field) : field.text.length ≤ maxName :=
  Nat.le_trans (length_cstring_le _) (Nat.le_of_eq field.property)

theorem openFile_ok {path : List Char} (short : path.length < maxBuff) :
    openFile site path = .ok (site.files path) := by
  rw [openFile, sprintf, if_pos short]
  rfl

/-- The path of a file of the list fits the buffer. -/
theorem openFile_field (field : Field) {ending : List Char} (short : ending.length ≤ 100) :
    openFile site (field.text ++ ending) = .ok (site.files (field.text ++ ending)) := by
  apply openFile_ok
  have bound := length_text field
  have name : maxName = 160 := rfl
  have buff : maxBuff = 300 := rfl
  rw [List.length_append]
  omega

theorem inside_open {Value : Type} {rest : Option (List Char) → Checked Value} (field : Field)
    {ending : List Char} (short : ending.length ≤ 100) :
    Inside (openFile site (field.text ++ ending) >>= rest) ↔
      Inside (rest (site.files (field.text ++ ending))) := by
  rw [openFile_field field short]
  exact Iff.rfl

theorem inside_defaultLines (lines : List (List Char)) (found : Decoding) :
    Inside (lines.foldlM defaultLine found) ↔
      ∀ line ∈ lines, HasBlank ezmlmGet line ∧ HasBlank ezmlmManage line := by
  apply inside_foldlM
  intro line _ state
  exact inside_defaultLine

theorem inside_qmailLines (lines : List (List Char)) (found : Decoding) :
    Inside (lines.foldlM qmailLine found) ↔ ∀ line ∈ lines, HasBlank ezmlmStore line := by
  apply inside_foldlM
  intro line _ state
  exact inside_qmailLine

theorem inside_headerLines (text : List Char) (list : ListInfoType) :
    Inside ((lines text).foldlM (headerLine site) list) ↔ ∀ line ∈ lines text, HeaderLine line := by
  apply inside_foldlM
  intro line member state
  exact inside_headerLine (length_line member)

/-- The options of the programs have a blank in front of them. -/
def QmailBounds (site : Site) (dot : List Char) : Prop :=
  (∀ line ∈ lines ((site.files (dot ++ "-default".toList)).getD []),
      HasBlank ezmlmGet line ∧ HasBlank ezmlmManage line) ∧
    ∀ line ∈ lines ((site.files dot).getD []), HasBlank ezmlmStore line

/-- The bounds of the first line of the `sql` file, and of the lines of the `headeradd` file. -/
def DirectoryBounds (site : Site) (dir : List Char) : Prop :=
  (∀ text ∈ site.files (dir ++ "/sql".toList), ∀ read ∈ fgets maxBuff text,
      SqlLine (cstring read.1)) ∧
    ∀ line ∈ lines ((site.files (dir ++ "/headeradd".toList)).getD []), HeaderLine line

theorem inside_decodeQmail : Inside (decodeQmail site list) ↔ QmailBounds site list.dot.text := by
  have own : openFile site list.dot.text = .ok (site.files list.dot.text) := by
    have opened := @openFile_field site list.dot [] (Nat.zero_le _)
    rwa [List.append_nil] at opened
  unfold decodeQmail QmailBounds
  rw [inside_open list.dot (by decide)]
  apply inside_bind (inside_defaultLines _ _)
  intro found _
  rw [inside_open list.dot (by decide), own]
  apply inside_before (inside_qmailLines _ _)
  exact fun _ => inside_ok _

theorem inside_decodeDirectory :
    Inside (decodeDirectory site list) ↔ DirectoryBounds site list.dir.text := by
  unfold decodeDirectory DirectoryBounds
  rw [inside_open list.dir (by decide)]
  apply inside_bind inside_sqlFile
  intro listed _
  apply (inside_open list.dir (by decide)).trans
  apply (inside_open list.dir (by decide)).trans
  apply (inside_open list.dir (by decide)).trans
  apply (inside_open list.dir (by decide)).trans
  apply (inside_open list.dir (by decide)).trans
  apply (inside_open list.dir (by decide)).trans
  apply (inside_open list.dir (by decide)).trans
  have titled : Inside (prefixFile listed (site.files (list.dir.text ++ "/prefix".toList))) ↔ True :=
    iff_of_true (inside_prefixFile _) trivial
  refine (inside_bind titled ?_).trans (true_and _).to_iff
  intro named _
  apply (inside_open list.dir (by decide)).trans
  exact inside_headerLines _ _

theorem dir_decodeQmail :
    Ensures (decodeQmail site list) fun found => found.list.dir = list.dir := by
  have defaults : ∀ (found : Decoding) (line : List Char), found.list.dir = list.dir →
      Ensures (defaultLine found line) fun next => next.list.dir = list.dir := by
    intro found line kept
    unfold defaultLine
    apply ensures_bind (ensures_any _)
    intro block _
    apply ensures_bind (ensures_any _)
    intro guard _
    apply ensures_bind (ensures_any _)
    intro subConf _
    apply ensures_bind (ensures_any _)
    intro unsubConf _
    apply ensures_bind (ensures_any _)
    intro remoteSub _
    apply ensures_bind (ensures_any _)
    exact fun _ _ => ensures_ok kept
  have own : ∀ (found : Decoding) (line : List Char), found.list.dir = list.dir →
      Ensures (qmailLine found line) fun next => next.list.dir = list.dir := by
    intro found line kept
    unfold qmailLine
    apply ensures_bind (ensures_any _)
    exact fun _ _ => ensures_ok kept
  have accepts : ∀ (lines : List (List Char)) (found : Decoding), found.list.dir = list.dir →
      (lines.foldl acceptLine found).list.dir = list.dir := by
    intro lines
    induction lines with
    | nil => exact fun _ kept => kept
    | cons line lines induction => exact fun found kept => induction (acceptLine found line) kept
  unfold decodeQmail
  apply ensures_bind (ensures_any _)
  intro default _
  apply ensures_bind (ensures_foldlM (fun line _ found => defaults found line) rfl)
  intro found kept
  apply ensures_bind (ensures_any _)
  intro accept _
  apply ensures_bind (ensures_any _)
  intro qmail _
  refine ensures_bind (ensures_foldlM (fun line _ found => own found line) ?_) ?_
  · exact accepts _ _ kept
  · exact fun _ kept => ensures_ok kept

theorem inside_ezmlmDecode :
    Inside (ezmlmDecode site list) ↔
      QmailBounds site list.dot.text ∧ DirectoryBounds site list.dir.text := by
  unfold ezmlmDecode
  apply inside_bind inside_decodeQmail
  intro found read
  rw [← dir_decodeQmail.holds found read]
  apply inside_before inside_decodeDirectory
  exact fun _ => inside_ok _

end Files

/-! ## Setting up -/

section Options

variable {site : Site} {list : ListInfoType} {entry : DomainEntry} {name domain : List Char}

theorem inside_write_of (field : Field) {text : List Char} (short : text.length < maxName) :
    Inside (field.write text) ↔ True :=
  iff_of_true (inside_write.mpr short) trivial

theorem inside_setOptions (short : name.length < maxName) :
    Inside (setOptions list entry name domain) ↔
      domain.length + 11 < maxName ∧ entry.path.length + 8 + name.length < maxName := by
  have steps : Inside (setOptions list entry name domain) ↔
      (snprintf maxFileName ("postmaster@".toList ++ domain)).length < maxName ∧ True ∧ True ∧
        True ∧ True ∧ True ∧ True ∧ (entry.path ++ '/' :: qmailName name).length < maxName ∧
        (entry.path ++ '/' :: qmailPrefix ++ qmailName name).length < maxName := by
    unfold setOptions
    apply inside_bind inside_write
    intro ownerEmail _
    apply inside_bind (inside_write_of _ (by decide))
    intro replyToAddr _
    apply inside_bind (inside_write_of _ (by decide))
    intro sqlBase _
    apply inside_bind (inside_write_of _ (by decide))
    intro sqlHost _
    apply inside_bind (inside_write_of _ (by decide))
    intro sqlPass _
    apply inside_bind (inside_write_of _ (by decide))
    intro sqlTable _
    apply inside_bind (inside_write_of _ (by decide))
    intro sqlUser _
    apply inside_bind inside_write
    intro dir _
    apply inside_before inside_write
    exact fun _ => inside_ok _
  have owner : (snprintf maxFileName ("postmaster@".toList ++ domain)).length =
      min 511 (domain.length + 11) := by
    rw [snprintf, List.length_take, List.length_append, Nat.add_comm]
    rfl
  have own : (qmailName name).length = name.length := by
    have size : maxName = 160 := rfl
    have buffer : maxFileName = 512 := rfl
    rw [qmailName, List.length_map, snprintf, List.length_take]
    omega
  have size : maxName = 160 := rfl
  rw [steps, owner, List.length_append, List.length_append, List.length_append, List.length_cons,
    List.length_cons, own]
  simp only [true_and]
  change _ ∧ _ ∧ entry.path.length + 8 + name.length < maxName ↔ _
  omega

/-- The directory of a list. -/
def dirPath (entry : DomainEntry) (name : List Char) : List Char :=
  cstring (entry.path ++ '/' :: qmailName name)

/-- The `.qmail` file of a list. -/
def dotPath (entry : DomainEntry) (name : List Char) : List Char :=
  cstring (entry.path ++ '/' :: qmailPrefix ++ qmailName name)

/-- What `default_options` leaves. -/
structure SetUp (setUp : ListInfoType) (entry : DomainEntry) (name domain : List Char) : Prop where
  entered : setUp.entry = entry
  named : setUp.name.text = cstring name
  located : setUp.domain.text = cstring domain
  dir : setUp.dir.text = dirPath entry name
  dot : setUp.dot.text = dotPath entry name

theorem ensures_write (field : Field) (text : List Char) :
    Ensures (field.write text) fun after => after.text = cstring text :=
  ⟨fun _ written => text_write written⟩

theorem ensures_setOptions (named : list.name.text = cstring name)
    (located : list.domain.text = cstring domain) :
    Ensures (setOptions list entry name domain) fun setUp => SetUp setUp entry name domain := by
  unfold setOptions
  apply ensures_bind (ensures_any _)
  intro ownerEmail _
  apply ensures_bind (ensures_any _)
  intro replyToAddr _
  apply ensures_bind (ensures_any _)
  intro sqlBase _
  apply ensures_bind (ensures_any _)
  intro sqlHost _
  apply ensures_bind (ensures_any _)
  intro sqlPass _
  apply ensures_bind (ensures_any _)
  intro sqlTable _
  apply ensures_bind (ensures_any _)
  intro sqlUser _
  apply ensures_bind (ensures_write list.dir _)
  intro dir below
  apply ensures_bind (ensures_write list.dot _)
  intro dot own
  exact ensures_ok ⟨rfl, named, located, below, own⟩

theorem length_lowerit (text : List Char) : (lowerit text).length ≤ 156 := by
  rw [lowerit, List.length_map, List.length_take]
  exact Nat.min_le_left _ _

/-- `lowerit` makes every name short. -/
theorem length_parseEmail {size : Nat} {email : List Char}
    (parsed : parseEmail site.defaultDomain size email = some (name, domain)) :
    name.length ≤ 156 := by
  have short := length_lowerit email
  rw [parseEmail] at parsed
  split at parsed
  next user rest split_ =>
    split at parsed
    · cases parsed
    split at parsed
    · cases parsed
    cases parsed
    split at split_
    · cases split_
      rw [List.length_take]
      omega
    · cases split_
      rw [List.length_take]
      omega

/-- Where the parts of an address come from. -/
theorem parts_cases {address : List Char} {domainOnly : Bool}
    (parted : parts site address domainOnly = .ok (name, domain)) :
    (domainOnly = true ∧ '@' ∉ address ∧ name = [] ∧ domain = snprintf maxFileName address) ∨
      (domainOnly = false ∧ '@' ∈ address ∧
        parseEmail site.defaultDomain maxBuff address = some (name, domain)) := by
  unfold parts at parted
  split at parted
  next only =>
    split at parted
    · cases parted
    next free =>
      cases parted
      exact .inl ⟨only, free, rfl, rfl⟩
  next address_ =>
    split at parted
    · cases parted
    next occurs =>
      split at parted
      · cases parted
      next parsed =>
        cases parted
        exact .inr ⟨Bool.eq_false_iff.mpr address_, not_not.mp occurs, parsed⟩

theorem length_parts {address : List Char} {domainOnly : Bool}
    (parted : parts site address domainOnly = .ok (name, domain)) : name.length < maxName := by
  have size : maxName = 160 := rfl
  rcases parts_cases parted with ⟨-, -, rfl, -⟩ | ⟨-, -, parsed⟩
  · exact Nat.zero_lt_succ _
  · have short := length_parseEmail parsed
    omega

end Options

section Opening

variable {site : Site} {list setUp : ListInfoType} {address : List Char}
  {isDomainOnly isCreating : Bool} {entry : DomainEntry} {name domain : List Char}

/-- The domain fits its field, and if there is such a domain, so do the address of its owner and
the path of the `.qmail` file. -/
def NamesFit (site : Site) (address : List Char) (isDomainOnly : Bool) : Prop :=
  ∀ name domain, parts site address isDomainOnly = .ok (name, domain) →
    domain.length < maxName ∧ ∀ entry ∈ site.domainEntry domain,
      domain.length + 11 < maxName ∧ entry.path.length + 8 + name.length < maxName

theorem inside_setNames (short : name.length < maxName) :
    Inside (setNames site list name domain) ↔
      domain.length < maxName ∧ ∀ entry ∈ site.domainEntry domain,
        domain.length + 11 < maxName ∧ entry.path.length + 8 + name.length < maxName := by
  unfold setNames
  refine (inside_bind (inside_write_of list.name short) ?_).trans (true_and _).to_iff
  intro nameCells _
  apply inside_bind inside_write
  intro domainCells _
  split
  next absent =>
    refine iff_of_true (inside_ok _) ?_
    intro entry member
    rw [absent] at member
    cases member
  next entry present =>
    rw [inside_map, inside_setOptions short, present]
    constructor
    · intro fits other member
      cases member
      exact fits
    · intro fits
      exact fits entry rfl

theorem inside_defaultOptions :
    Inside (defaultOptions site list address isDomainOnly) ↔
      NamesFit site address isDomainOnly := by
  unfold defaultOptions NamesFit
  split
  next code refused =>
    refine iff_of_true (inside_ok _) ?_
    intro name domain parted
    rw [refused] at parted
    cases parted
  next name domain parted =>
    rw [inside_setNames (length_parts parted)]
    constructor
    · intro fits name' domain' same
      rw [parted] at same
      cases same
      exact fits
    · intro fits
      exact fits name domain parted

/-- What `default_options` returns for a domain there is. -/
theorem ensures_setNames (present : site.domainEntry domain = some entry) :
    Ensures (setNames site list name domain) fun result =>
      ∃ setUp, result = .ok setUp ∧ SetUp setUp entry name domain := by
  unfold setNames
  apply ensures_bind (ensures_write list.name name)
  intro nameCells named
  apply ensures_bind (ensures_write list.domain domain)
  intro domainCells located
  rw [present]
  apply ensures_map
  refine ⟨fun setUp set => ⟨setUp, rfl, ?_⟩⟩
  exact (ensures_setOptions named located).holds setUp set

/-- The name, the domain and the entry of a list that is set up. -/
theorem exists_of_defaultOptions
    (set : defaultOptions site list address isDomainOnly = .ok (.ok setUp)) :
    ∃ name domain entry, parts site address isDomainOnly = .ok (name, domain) ∧
      site.domainEntry domain = some entry ∧ SetUp setUp entry name domain := by
  unfold defaultOptions at set
  split at set
  · cases set
  next name domain parted =>
    cases found : site.domainEntry domain with
    | none =>
        have refused : Ensures (setNames site { list with domainOnly := isDomainOnly } name domain)
            fun result => result = .error 3 := by
          unfold setNames
          apply ensures_bind (ensures_any _)
          intro nameCells _
          apply ensures_bind (ensures_any _)
          intro domainCells _
          rw [found]
          exact ensures_ok rfl
        have same := refused.holds _ set
        cases same
    | some entry =>
        rcases (ensures_setNames found).holds _ set with ⟨other, same, holds⟩
        cases same
        exact ⟨name, domain, entry, parted, found, holds⟩

/-- What `listDelete` reads of a list is set up the same way. -/
theorem info_of_defaultOptions
    (set : defaultOptions site list address isDomainOnly = .ok (.ok setUp)) :
    ∃ info, Vlistlib.defaultOptions site.defaultDomain site.process site.scan address
        isDomainOnly = .ok (.ok info) ∧ SetUp setUp info.entry info.name info.domain := by
  rcases exists_of_defaultOptions set with ⟨name, domain, entry, parted, present, holds⟩
  have fits := (inside_defaultOptions.mp ⟨_, set⟩ name domain parted).2 entry present
  have size : maxName = 160 := rfl
  have own : (qmailName name).length ≤ name.length := by
    rw [qmailName, List.length_map, snprintf, List.length_take]
    exact Nat.min_le_right _ _
  have dir : sprintf maxName (entry.path ++ '/' :: qmailName name) =
      .ok (entry.path ++ '/' :: qmailName name) := by
    apply if_pos
    rw [List.length_append, List.length_cons]
    omega
  have dot : sprintf maxName (entry.path ++ '/' :: qmailPrefix ++ qmailName name) =
      .ok (entry.path ++ '/' :: qmailPrefix ++ qmailName name) := by
    apply if_pos
    have fixed : ('/' :: qmailPrefix).length = 8 := rfl
    rw [List.length_append, List.length_append, fixed]
    omega
  refine ⟨⟨entry, name, entry.path ++ '/' :: qmailPrefix ++ qmailName name,
    entry.path ++ '/' :: qmailName name, domain⟩, ?_, holds⟩
  have made : Vlistlib.makeNames name domain entry = .ok
      ⟨entry, name, entry.path ++ '/' :: qmailPrefix ++ qmailName name,
        entry.path ++ '/' :: qmailName name, domain⟩ := by
    rw [Vlistlib.makeNames, dir, dot]
    rfl
  unfold Site.domainEntry at present
  rcases parts_cases parted with ⟨rfl, free, rfl, rfl⟩ | ⟨rfl, occurs, parsed⟩
  · simp only [Vlistlib.defaultOptions, free, if_true, if_false, present, made]
    rfl
  · simp only [Vlistlib.defaultOptions, occurs, not_true_eq_false, Bool.false_eq_true, if_false,
      parsed, present, made]
    rfl

/-- The list is set up with this name, and found. -/
structure Opens (site : Site) (address name domain : List Char) (entry : DomainEntry) : Prop where
  parted : parts site address false = .ok (name, domain)
  present : site.domainEntry domain = some entry
  found : isExistingAddress site (cstring domain) (cstring name) entry.path = true

theorem SetUp.exists_eq (set : SetUp setUp entry name domain) :
    isExistingAddress site setUp.domain.text setUp.name.text setUp.entry.path =
      isExistingAddress site (cstring domain) (cstring name) entry.path := by
  rw [set.located, set.named, set.entered]

/-- The lists that are decoded. -/
theorem opens_of_defaultOptions
    (set : defaultOptions site list address false = .ok (.ok setUp))
    (found : isExistingAddress site setUp.domain.text setUp.name.text setUp.entry.path = true) :
    ∃ name domain entry, Opens site address name domain entry ∧
      SetUp setUp entry name domain := by
  rcases exists_of_defaultOptions set with ⟨name, domain, entry, parted, present, holds⟩
  rw [holds.exists_eq] at found
  exact ⟨name, domain, entry, ⟨parted, present, found⟩, holds⟩

theorem defaultOptions_of_opens (opens : Opens site address name domain entry)
    (fits : NamesFit site address false) :
    ∃ setUp, defaultOptions site list address false = .ok (.ok setUp) ∧
      SetUp setUp entry name domain := by
  rcases (@inside_defaultOptions site list address false).mpr fits with ⟨result, set⟩
  have named := set
  rw [defaultOptions, opens.parted] at named
  rcases (ensures_setNames opens.present).holds _ named with ⟨setUp, rfl, holds⟩
  exact ⟨setUp, set, holds⟩

/-- Where `listInit` stays inside. -/
theorem inside_listInit :
    Inside (listInit site list address isDomainOnly isCreating) ↔
      NamesFit site address isDomainOnly ∧ (isDomainOnly = false → isCreating = false →
        ∀ name domain entry, Opens site address name domain entry →
          QmailBounds site (dotPath entry name) ∧ DirectoryBounds site (dirPath entry name)) := by
  unfold listInit
  refine inside_bind inside_defaultOptions ?_
  intro result set
  have fits : NamesFit site address isDomainOnly := inside_defaultOptions.mp ⟨result, set⟩
  cases result with
  | error status =>
      refine iff_of_true (inside_ok _) ?_
      rintro rfl - name domain entry opens
      rcases @defaultOptions_of_opens _ list _ _ _ _ opens fits with ⟨setUp, other, -⟩
      rw [set] at other
      cases other
  | ok setUp =>
      cases isDomainOnly with
      | true =>
          refine iff_of_true (inside_ok _) ?_
          intro only
          cases only
      | false =>
          simp only [Bool.false_eq_true, if_false, forall_true_left]
          split
          next found =>
            cases isCreating with
            | true =>
                refine iff_of_true (inside_ok _) ?_
                intro creating
                cases creating
            | false =>
                rcases opens_of_defaultOptions set found with ⟨name, domain, entry, opens, holds⟩
                simp only [Bool.false_eq_true, if_false, forall_true_left]
                rw [inside_map, inside_ezmlmDecode, holds.dot, holds.dir]
                constructor
                · intro bounds name' domain' entry' other
                  have parted := other.parted
                  rw [opens.parted] at parted
                  cases parted
                  have present := other.present
                  rw [opens.present] at present
                  cases present
                  exact bounds
                · intro bounds
                  exact bounds name domain entry opens
          next unfound =>
            refine iff_of_true ?_ ?_
            · split
              · exact inside_ok _
              · exact inside_ok _
            · intro _ name domain entry opens
              rcases @defaultOptions_of_opens _ list _ _ _ _ opens fits with ⟨other, own, holds⟩
              rw [set] at own
              cases own
              exact absurd (holds.exists_eq.trans opens.found) unfound

end Opening

end Vpopmail.Ezmlm

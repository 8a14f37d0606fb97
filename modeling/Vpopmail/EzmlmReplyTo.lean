import Vpopmail.EzmlmBounds

/-! # The `Reply-To` address of a mailing list

`ezmlm_decode` takes it from the line of the `headeradd` file, less a last character that is
taken for the newline.
-/

namespace Vpopmail.Ezmlm

open Text Vpopmail.Stream Buffer
open Vlistlib (maxName maxFileName qmailName sprintf)

/-- `user@domain`. -/
def IsAddress (address : List Char) : Prop :=
  ∃ name domain, address = name ++ '@' :: domain ∧ isUsernameValid name = true ∧
    isDomainValid domain = true

/-- One line of the file is `Reply-To: ` and the address. What follows is nothing, or a newline
and lines of another kind. -/
def OneReplyTo (headers address ending : List Char) : Prop :=
  ∃ before : List (List Char), (∀ line ∈ before, IsLine line ∧ ¬replyToText <:+: line) ∧
    headers = before.flatten ++ (replyToText ++ ' ' :: address) ++ ending ∧
    (ending = [] ∨ ∃ after, ending = '\n' :: after ∧ ¬replyToText <:+: after)

section

variable {site : Site} {list after : ListInfoType} {address headers ending text line : List Char}

theorem IsAddress.free {char : Char} (is : IsAddress address) (other : char ≠ '@')
    (user : usernameChar char = false) (host : domainChar char = false) : Free char address := by
  rcases is with ⟨name, domain, rfl, named, located⟩
  rw [free_append, free_cons]
  exact ⟨free_of_isUsernameValid user named, other, free_of_isDomainValid host located⟩

theorem IsAddress.length_pos (is : IsAddress address) : 0 < address.length := by
  rcases is with ⟨name, domain, rfl, -, -⟩
  rw [List.length_append, List.length_cons]
  omega

/-! ## Lines without it -/

theorem infix_of_mem_lines (member : line ∈ lines text) : line <:+: text := by
  rcases List.mem_map.mp member with ⟨chunk, inside, rfl⟩
  have part : chunk <:+: text := by
    have whole := fgetsLoop_flatten (show 1 < maxBuff by decide) text
    rw [← whole]
    exact List.infix_of_mem_flatten inside
  exact (List.takeWhile_prefix _).isInfix.trans part

theorem foldlM_unnamed {lines : List (List Char)} (unnamed : ∀ line ∈ lines, ¬replyToText <:+: line)
    (list : ListInfoType) : lines.foldlM (headerLine site) list = .ok list := by
  induction lines with
  | nil => rfl
  | cons line lines induction =>
      rw [List.forall_mem_cons] at unnamed
      rw [List.foldlM_cons, headerLine, if_neg unnamed.1]
      exact induction unnamed.2

/-! ## The line with it -/

/-- The line, which has a newline or is the last one of the file. -/
theorem lines_oneReplyTo (is : IsAddress address) (short : address.length < maxName)
    (one : OneReplyTo headers address ending) :
    ∃ before behind, lines headers =
        before ++ (replyToText ++ ' ' :: address ++ ending.take 1) :: behind ∧
      (∀ line ∈ before, ¬replyToText <:+: line) ∧ ∀ line ∈ behind, ¬replyToText <:+: line := by
  rcases one with ⟨before, whole, rfl, ended⟩
  have room : 1 < maxBuff := by decide
  have size : maxName = 160 := rfl
  have buff : maxBuff = 300 := rfl
  have named : replyToText.length = 9 := rfl
  have solid : Free '\n' (replyToText ++ ' ' :: address) :=
    free_append.mpr ⟨by decide, free_cons.mpr ⟨by decide, is.free (by decide) rfl rfl⟩⟩
  have plain : ∀ tail, Free nul tail → cstring (replyToText ++ ' ' :: address ++ tail) =
      replyToText ++ ' ' :: address ++ tail := by
    intro tail free
    apply cstring_of_free
    exact free_append.mpr ⟨free_append.mpr
      ⟨by decide, free_cons.mpr ⟨by decide, is.free (by decide) rfl rfl⟩⟩, free⟩
  have fits : (replyToText ++ ' ' :: address).length < maxBuff - 1 := by
    rw [List.length_append, List.length_cons]
    omega
  have nonempty : ∀ tail, replyToText ++ ' ' :: address ++ tail ≠ [] :=
    fun tail => List.cons_ne_nil _ _
  have front : ∀ line ∈ (before.flatMap (fgetsLoop maxBuff)).map cstring,
      ¬replyToText <:+: line := by
    intro line member
    rcases List.mem_map.mp member with ⟨chunk, inside, rfl⟩
    rcases List.mem_flatMap.mp inside with ⟨other, own, part⟩
    intro occurs
    exact (whole other own).2 (occurs.trans (infix_of_mem_lines (List.mem_map_of_mem part)))
  have shape := fgetsLoop_flatten_append room (fun line member => (whole line member).1)
    (replyToText ++ ' ' :: address ++ ending)
  refine ⟨(before.flatMap (fgetsLoop maxBuff)).map cstring, ?_⟩
  rcases ended with rfl | ⟨after, rfl, others⟩
  · have last := fgetsLoop_short room solid fits (.inl rfl) (nonempty [])
    rw [last] at shape
    refine ⟨[], ?_, front, List.forall_mem_nil _⟩
    rw [lines, List.append_assoc, shape, List.map_append, List.map_cons, List.map_nil,
      plain [] (free_nil nul), List.take_nil]
  · have own := fgetsLoop_short room solid fits (.inr rfl) (nonempty ['\n'])
    rw [fgetsLoop_append_newline room solid, own] at shape
    refine ⟨lines after, ?_, front, ?_⟩
    · rw [lines, List.append_assoc, shape, List.map_append, List.map_append, List.map_cons,
        List.map_nil, plain ['\n'] (by decide)]
      rfl
    · intro line member occurs
      exact others (occurs.trans (infix_of_mem_lines member))

/-- What the line leaves: everything between the blank and the last character. -/
theorem headerLine_own (is : IsAddress address) (short : address.length < maxName)
    {tail : List Char} (ends : Ends tail)
    (done : headerLine site list (replyToText ++ ' ' :: address ++ tail) = .ok after) :
    after.replyToAddr.text = address.take (address.length + tail.length - 1) := by
  have size : maxName = 160 := rfl
  have buff : maxBuff = 300 := rfl
  have positive := is.length_pos
  have last : tail.length ≤ 1 := by
    rcases ends with rfl | rfl
    · exact Nat.zero_le 1
    · exact Nat.le_refl 1
  have named : replyToText <:+: replyToText ++ ' ' :: address ++ tail :=
    ⟨[], ' ' :: address ++ tail, by rw [List.nil_append, List.append_assoc]⟩
  have other : ¬"<#l#>@<#h#>".toList <:+: replyToText ++ ' ' :: address ++ tail := by
    intro occurs
    have solid : Free '<' (replyToText ++ ' ' :: address ++ tail) := by
      refine free_append.mpr ⟨free_append.mpr
        ⟨by decide, free_cons.mpr ⟨by decide, is.free (by decide) rfl rfl⟩⟩, ?_⟩
      rcases ends with rfl | rfl
      · exact free_nil '<'
      · decide
    exact solid (occurs.mem (List.mem_cons_self))
  have bound : subtracted (replyToText ++ ' ' :: address ++ tail).length 11 =
      address.length + tail.length - 1 := by
    have length : (replyToText ++ ' ' :: address ++ tail).length =
        9 + (address.length + 1) + tail.length := by
      rw [List.length_append, List.length_append, List.length_cons]
      rfl
    rw [length, subtracted]
    omega
  have room : address.length + tail.length - 1 < maxName := by omega
  have read : address.length + tail.length - 1 + 10 ≤
      (lineCells site (replyToText ++ ' ' :: address ++ tail)).length := by
    have least := @length_lineCells site (replyToText ++ ' ' :: address ++ tail)
    omega
  have cells : ((lineCells site (replyToText ++ ' ' :: address ++ tail)).drop 10).take
      (address.length + tail.length - 1) = address.take (address.length + tail.length - 1) := by
    have behind : ∃ rest, (lineCells site (replyToText ++ ' ' :: address ++ tail)).drop 10 =
        address ++ rest := by
      refine ⟨tail ++ nul :: (List.range (maxBuff -
        (replyToText ++ ' ' :: address ++ tail).length - 1)).map site.fresh, ?_⟩
      rw [lineCells, List.append_assoc, List.append_assoc]
      rfl
    rcases behind with ⟨rest, behind⟩
    rw [behind, List.take_append_of_le_length (by omega)]
  have plain : Free nul (address.take (address.length + tail.length - 1)) := by
    intro member
    exact (is.free (by decide) rfl rfl : Free nul address) (List.mem_of_mem_take member)
  rw [headerLine, if_pos named, if_neg other, bound] at done
  rcases @copy_ok list.replyToAddr _ 10 _ room read with ⟨field, copied, text⟩
  rw [copied] at done
  cases done
  rw [cells, cstring_of_free plain] at text
  exact text

/-- What the file leaves. -/
theorem text_oneReplyTo (is : IsAddress address) (short : address.length < maxName)
    (one : OneReplyTo headers address ending)
    (done : (lines headers).foldlM (headerLine site) list = .ok after) :
    after.replyToAddr.text = address.take (address.length + (ending.take 1).length - 1) := by
  have ends : Ends (ending.take 1) := by
    rcases one with ⟨-, -, -, rfl | ⟨rest, rfl, -⟩⟩
    · exact .inl rfl
    · exact .inr rfl
  rcases lines_oneReplyTo is short one with ⟨before, behind, shape, front, back⟩
  rw [shape, List.foldlM_append, foldlM_unnamed front] at done
  change (headerLine site list (replyToText ++ ' ' :: address ++ ending.take 1)).bind
    (fun next => behind.foldlM (headerLine site) next) = .ok after at done
  cases own : headerLine site list (replyToText ++ ' ' :: address ++ ending.take 1) with
  | error fault =>
      rw [own] at done
      cases done
  | ok next =>
      rw [own] at done
      change behind.foldlM (headerLine site) next = .ok after at done
      rw [foldlM_unnamed back] at done
      cases done
      exact headerLine_own is short ends own

theorem ensures_openFile (path : List Char) :
    Ensures (openFile site path) fun file => file = site.files path := by
  apply ensures_map
  refine ⟨fun printed done => ?_⟩
  rw [(Vlistlib.sprintf_ok done).1]

/-- The last thing that is read in the directory. -/
theorem headers_decodeDirectory :
    Ensures (decodeDirectory site list) fun last => ∃ before,
      (lines ((site.files (list.dir.text ++ "/headeradd".toList)).getD [])).foldlM
        (headerLine site) before = .ok last := by
  unfold decodeDirectory
  apply ensures_bind (ensures_any _)
  intro sql _
  apply ensures_bind (ensures_any _)
  intro listed _
  apply ensures_bind (ensures_any _)
  intro archived _
  apply ensures_bind (ensures_any _)
  intro digest _
  apply ensures_bind (ensures_any _)
  intro prefixed _
  apply ensures_bind (ensures_any _)
  intro isPublic _
  apply ensures_bind (ensures_any _)
  intro remote _
  apply ensures_bind (ensures_any _)
  intro subMod _
  apply ensures_bind (ensures_any _)
  intro trailer _
  apply ensures_bind (ensures_any _)
  intro titled _
  apply ensures_bind (ensures_openFile _)
  rintro headers rfl
  exact ⟨fun last folded => ⟨_, folded⟩⟩

theorem headers_ezmlmDecode (decoded : ezmlmDecode site list = .ok after) :
    ∃ before last, (lines ((site.files (list.dir.text ++ "/headeradd".toList)).getD [])).foldlM
        (headerLine site) before = .ok last ∧ after.replyToAddr = last.replyToAddr := by
  have reads : Ensures (ezmlmDecode site list) fun after => ∃ before last,
      (lines ((site.files (list.dir.text ++ "/headeradd".toList)).getD [])).foldlM
        (headerLine site) before = .ok last ∧ after.replyToAddr = last.replyToAddr := by
    unfold ezmlmDecode
    apply ensures_bind dir_decodeQmail
    intro found same
    rw [← same]
    apply ensures_bind headers_decodeDirectory
    rintro last ⟨before, folded⟩
    exact ensures_ok ⟨before, last, folded, rfl⟩
  exact reads.holds after decoded

end

/-! ## Opening a list -/

/-- The last line of the file is `Reply-To: ` and an address, without a newline. -/
def Unended (headers : List Char) : Prop :=
  ∃ address, IsAddress address ∧ address.length < maxName ∧ OneReplyTo headers address []

/-- `listInit` writes and reads inside the fields and buffers, and decodes the address that the
`headeradd` file has. -/
structure OpensInside (site : Site) (list : ListInfoType) (address : List Char)
    (isDomainOnly isCreating : Bool) : Prop where
  inside : Inside (listInit site list address isDomainOnly isCreating)
  replyTo : isDomainOnly = false → isCreating = false → ∀ setUp decoded,
    defaultOptions site list address false = .ok (.ok setUp) →
    isExistingAddress site setUp.domain.text setUp.name.text setUp.entry.path = true →
    ezmlmDecode site setUp = .ok decoded →
    ∀ headers ∈ site.files (setUp.dir.text ++ "/headeradd".toList), ∀ sender ending,
      IsAddress sender → sender.length < maxName → OneReplyTo headers sender ending →
      decoded.replyToAddr.text = sender

/-- The names fit, and so do the lines of the files, and the line of the `headeradd` file with the
address has a newline. -/
structure FilesFit (site : Site) (address : List Char) (isDomainOnly isCreating : Bool) :
    Prop where
  names : NamesFit site address isDomainOnly
  files : isDomainOnly = false → isCreating = false → ∀ name domain entry,
    Opens site address name domain entry →
      QmailBounds site (dotPath entry name) ∧ DirectoryBounds site (dirPath entry name) ∧
        ∀ headers ∈ site.files (dirPath entry name ++ "/headeradd".toList), ¬Unended headers

theorem opensInside_iff (site : Site) (list : ListInfoType) (address : List Char)
    (isDomainOnly isCreating : Bool) :
    OpensInside site list address isDomainOnly isCreating ↔
      FilesFit site address isDomainOnly isCreating := by
  constructor
  · rintro ⟨inside, replyTo⟩
    rcases inside_listInit.mp inside with ⟨fits, bounds⟩
    refine ⟨fits, ?_⟩
    rintro rfl rfl name domain entry opens
    rcases bounds rfl rfl name domain entry opens with ⟨qmail, directory⟩
    refine ⟨qmail, directory, ?_⟩
    rintro headers member ⟨sender, is, short, one⟩
    rcases @defaultOptions_of_opens _ list _ _ _ _ opens fits with ⟨setUp, set, holds⟩
    have decodes : Inside (ezmlmDecode site setUp) := by
      rw [inside_ezmlmDecode, holds.dot, holds.dir]
      exact ⟨qmail, directory⟩
    rcases decodes with ⟨decoded, done⟩
    have found := holds.exists_eq.trans opens.found
    rw [← holds.dir] at member
    have own := replyTo rfl rfl setUp decoded set found done headers member sender [] is short one
    rcases headers_ezmlmDecode done with ⟨before, last, folded, same⟩
    rw [member] at folded
    have text := text_oneReplyTo is short one folded
    rw [← same, own] at text
    have lengths := congrArg List.length text
    have positive := is.length_pos
    rw [List.length_take, List.take_nil, List.length_nil] at lengths
    omega
  · rintro ⟨fits, bounds⟩
    refine ⟨inside_listInit.mpr ⟨fits, ?_⟩, ?_⟩
    · intro only creating name domain entry opens
      rcases bounds only creating name domain entry opens with ⟨qmail, directory, -⟩
      exact ⟨qmail, directory⟩
    · rintro rfl rfl setUp decoded set found done headers member sender ending is short one
      rcases opens_of_defaultOptions set found with ⟨name, domain, entry, opens, holds⟩
      rcases bounds rfl rfl name domain entry opens with ⟨-, -, ended⟩
      rcases headers_ezmlmDecode done with ⟨before, last, folded, same⟩
      rw [member] at folded
      rw [same, text_oneReplyTo is short one folded]
      have newline : (ending.take 1).length = 1 := by
        rcases one with ⟨lines, whole, shape, rfl | ⟨rest, rfl, -⟩⟩
        · rw [holds.dir] at member
          exact absurd ⟨sender, is, short, lines, whole, shape, .inl rfl⟩ (ended headers member)
        · rfl
      rw [newline, Nat.add_sub_cancel, List.take_length]

theorem length_blank : (List.replicate maxName nul).length = maxName := List.length_replicate

theorem blank_short : ([] : List Char).length ≤ maxPwDomain := Nat.zero_le _

def blankField : Field := ⟨List.replicate maxName nul, length_blank⟩

/-- A structure nothing has been written to. -/
def blankList : ListInfoType where
  entry := ⟨[], [], 0, 0, []⟩
  name := blankField
  posting := 0
  access := 0
  archive := false
  domainOnly := false
  prefixed := false
  replyTo := 0
  digest := false
  edit := false
  subConf := false
  indexed := false
  unsubConf := false
  kill := false
  remoteSub := false
  remoteText := false
  isPublic := false
  requests := false
  remote := false
  subMod := false
  trailer := false
  warn := false
  extra := false
  sqlSupport := false
  sqlPort := 0
  ownerEmail := blankField
  sqlHost := blankField
  sqlUser := blankField
  sqlPass := blankField
  sqlBase := blankField
  sqlTable := blankField
  dot := blankField
  dir := blankField
  prefixText := blankField
  domain := blankField
  replyToAddr := blankField

/-- A domain `a.b` with a list `foo`, whose `headeradd` file has a header without an address. -/
def emptyReplyTo : Site where
  defaultDomain := []
  short := blank_short
  process := Vlistlib.domainProcess
  scan := ⟨none, []⟩
  vauthGetpw := fun _ _ => false
  files := fun path =>
    if path = "/d/.qmail-foo".toList then some "|ezmlm-reject\n".toList
    else if path = "/d/foo/headeradd".toList then some "Reply-To:\n".toList
    else none
  fresh := fun _ => nul

/-- The header is too short for what is subtracted from its length. -/
theorem not_opensInside :
    ¬∀ site list address isDomainOnly isCreating,
      OpensInside site list address isDomainOnly isCreating := by
  intro inside
  rcases (inside emptyReplyTo blankList "foo@a.b".toList false false).inside with ⟨result, opened⟩
  have fault : (listInit emptyReplyTo blankList "foo@a.b".toList false false).isOk = false := by
    decide +kernel
  rw [opened] at fault
  cases fault

end Vpopmail.Ezmlm

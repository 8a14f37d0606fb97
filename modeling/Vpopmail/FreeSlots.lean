import Vpopmail.ControlFiles
import Vpopmail.Foundation.Queue
import Vpopmail.StringSearch
import Vpopmail.UserOperations

/-! # The free directories as a queue

Deleted users leave their hash directories in `.dir_control_free`, and new users get these back
in the order of the file.
-/

namespace Vpopmail

open Text Vpopmail.Stream Backfill Users

/-- A user who was made in a directory of the domain. -/
structure Deletion (domain : Users.Domain) where
  user : List Char
  hash : List Char
  named : user ≠ []
  domainNamed : domain.name ≠ []
  plain : Free nul hash
  fits : domain.dir.length + hash.length + user.length ≤ maxPwDir

/-- The calls of `backfill`, with whether the files can be opened. -/
inductive SlotOperation (domain : Users.Domain)
  | delete (opened : Bool) (deletion : Deletion domain)
  | allocate (opened : Bool)

section Calls

variable {domain : Users.Domain}

/-- The directory of the user. -/
def Deletion.path (deletion : Deletion domain) : List Char :=
  userDir domain deletion.hash deletion.user

/-- Operation 1 of `backfill`: the slot that it returns, and the file. -/
def backfillAllocate (opened : Bool) (file : Option (List Char)) :
    Option (List Char) × Option (List Char) :=
  match freeEntry file with
  | none => (none, file)
  | some entry =>
      let removed := removeLine opened entry file true
      (if removed.1 = 1 then some entry else none, removed.2)

/-- `backfill` on the file. -/
def backfillStep (file : Option (List Char)) :
    SlotOperation domain → Option (List Char) × Option (List Char)
  | .delete opened deletion =>
      (none, addEntry opened file (freedEntry deletion.user domain.name deletion.path))
  | .allocate opened => backfillAllocate opened file

/-- What the call does to the slots: without hash directories there is none to free. -/
def SlotOperation.event : SlotOperation domain → Queue.Event (List Char)
  | .delete opened deletion => .put (opened && deletion.hash ≠ []) deletion.hash
  | .allocate opened => .take opened

end Calls

/-! ## Slots in the file -/

/-- A hash that is read back from a line of its own. -/
structure Slot (hash : List Char) : Prop where
  nonempty : hash ≠ []
  plain : Free nul hash
  newline : Free '\n' hash
  comment : Free '#' hash
  start : ∀ head ∈ hash.head?, Decimal.isSpace head = false
  fits : hash.length + 1 < maxBuff - 2

/-- The file holds the slots in order. -/
def HoldsSlots (file : Option (List Char)) (slots : List (List Char)) : Prop :=
  (∀ slot ∈ slots, Slot slot) ∧ file.getD [] = printLines slots

theorem fgetsLoop_slots {size : Nat} (room : maxBuff - 2 ≤ size) {slots : List (List Char)}
    (all : ∀ slot ∈ slots, Slot slot) :
    fgetsLoop size (printLines slots) = slots.map (· ++ ['\n']) := by
  rw [printLines, List.flatMap_def, fgetsLoop_lines]
  intro line member
  rcases List.mem_map.mp member with ⟨slot, inside, rfl⟩
  have fits := (all slot inside).fits
  refine ⟨isLine_append_newline (all slot inside).newline, ?_⟩
  rw [List.length_append, List.length_singleton]
  omega

theorem cstring_line {slot : List Char} (isSlot : Slot slot) :
    cstring (slot ++ ['\n']) = slot ++ ['\n'] :=
  cstring_of_free (free_append.mpr ⟨isSlot.plain, by decide⟩)

theorem dropWhile_isSpace {slot : List Char} (isSlot : Slot slot) (rest : List Char) :
    (slot ++ rest).dropWhile Decimal.isSpace = slot ++ rest := by
  cases slot with
  | nil => exact absurd rfl isSlot.nonempty
  | cons head tail =>
      rw [List.cons_append, List.dropWhile_cons_of_neg]
      rw [isSlot.start head rfl]
      exact Bool.false_ne_true

theorem freeEntryIn_cons {slot : List Char} (isSlot : Slot slot) (chunks : List (List Char)) :
    freeEntryIn ((slot ++ ['\n']) :: chunks) = some slot := by
  have noComment : Free '#' (slot ++ ['\n']) := free_append.mpr ⟨isSlot.comment, by decide⟩
  have some_ : slot ++ ['\n'] ≠ [] := by simp
  have plain : '#' ∉ slot ++ ['\n'] := noComment
  rw [freeEntryIn]
  simp only [cstring_line isSlot, takeWhile_ne_of_free noComment, dropWhile_isSpace isSlot,
    List.getLast?_concat, ne_eq, not_true_eq_false, if_false, if_neg some_, if_neg plain,
    List.dropLast_concat]

theorem copyOthers_once {slots : List (List Char)} (all : ∀ slot ∈ slots, Slot slot)
    (template : List Char) :
    copyOthers template true 1 (slots.map (· ++ ['\n'])) = (printLines slots, 1) := by
  induction slots with
  | nil => rfl
  | cons slot slots induction =>
      have isSlot := all slot List.mem_cons_self
      have rest := induction fun other member => all other (List.mem_cons_of_mem slot member)
      have line : (slot ++ ['\n']).takeWhile (· ≠ '\n') = slot :=
        takeWhile_ne_append_cons isSlot.newline []
      rw [List.map_cons, copyOthers]
      simp only [cstring_line isSlot, line, rest]
      simp [printLines]

theorem removeLine_cons {slot : List Char} {slots : List (List Char)} {file : Option (List Char)}
    (holds : HoldsSlots file (slot :: slots)) :
    removeLine true slot file true = (1, some (printLines slots)) := by
  rcases holds with ⟨all, stored⟩
  have isSlot := all slot List.mem_cons_self
  have others : ∀ other ∈ slots, Slot other :=
    fun other member => all other (List.mem_cons_of_mem slot member)
  have chunks : fgetsLoop maxBuff (printLines (slot :: slots)) =
      (slot ++ ['\n']) :: slots.map (· ++ ['\n']) := fgetsLoop_slots (by decide) all
  have line : (slot ++ ['\n']).takeWhile (· ≠ '\n') = slot :=
    takeWhile_ne_append_cons isSlot.newline []
  have itself : slot.isPrefixOf slot = true := List.isPrefixOf_iff_prefix.mpr List.prefix_rfl
  cases file with
  | none => simp [printLines] at stored
  | some text =>
      rw [Option.getD_some] at stored
      subst stored
      rw [removeLine, chunks, copyOthers]
      simp only [cstring_line isSlot, line, itself, copyOthers_once others]
      simp

theorem freeEntry_of_holds {slots : List (List Char)} {file : Option (List Char)}
    (holds : HoldsSlots file slots) : freeEntry file = slots.head? := by
  rcases holds with ⟨all, stored⟩
  cases file with
  | none =>
      cases slots with
      | nil => rfl
      | cons slot slots => simp [printLines] at stored
  | some text =>
      rw [Option.getD_some] at stored
      subst stored
      rw [freeEntry, Option.bind_some, fgetsLoop_slots (Nat.le_refl _) all]
      cases slots with
      | nil => rfl
      | cons slot slots => exact freeEntryIn_cons (all slot List.mem_cons_self) _

/-- An allocation takes the first slot. -/
theorem backfillAllocate_refines {slots : List (List Char)} {file : Option (List Char)}
    (holds : HoldsSlots file slots) (opened : Bool) :
    (backfillAllocate opened file).1 = (Queue.step slots (.take opened)).1 ∧
      HoldsSlots (backfillAllocate opened file).2 (Queue.step slots (.take opened)).2 := by
  rw [backfillAllocate, freeEntry_of_holds holds]
  cases slots with
  | nil =>
      cases opened with
      | true => exact ⟨rfl, holds⟩
      | false => exact ⟨rfl, holds⟩
  | cons slot slots =>
      dsimp only [List.head?_cons]
      cases opened with
      | true =>
          rw [removeLine_cons holds]
          exact ⟨rfl, fun other member => holds.1 other (List.mem_cons_of_mem slot member), rfl⟩
      | false =>
          cases file with
          | none => exact ⟨rfl, holds⟩
          | some text => exact ⟨rfl, holds⟩

/-! ## What a deletion records -/

/-- What `backfill` keeps of a path: it cuts it at a slash in front of the first occurrence of
the user. -/
inductive CutAt (user path : List Char) : List Char → Prop
  | slash {above behind : List Char} : path = above ++ ['/'] ++ user ++ behind →
      FirstBehind user (above ++ ['/']) → CutAt user path above
  | front {behind : List Char} : path = user ++ behind → user.head? = some '/' → CutAt user path []
  | inside {before behind : List Char} : path = before ++ user ++ behind →
      FirstBehind user before → before.getLast? ≠ some '/' →
      (before = [] → user.head? ≠ some '/') → CutAt user path path

/-- The hash stands behind the first occurrence of the domain in what is kept of the path. -/
def Freed (user domain path hash : List Char) : Prop :=
  ∃ above, CutAt user path above ∧ ∃ before separator,
    above = before ++ domain ++ separator ++ hash ∧ FirstBehind domain before ∧
      (separator = ['/'] ∨ separator = [] ∧ hash.head? ≠ some '/')

/-- The cut of `backfill`. -/
def aboveUser (user path : List Char) : List Char :=
  match strstr path user with
  | none => path
  | some position => if path[position - 1]? = some '/' then path.take (position - 1) else path

/-- The search for the domain in `backfill`. -/
def behindDomain (domain above : List Char) : Option (List Char) :=
  match strstr above domain with
  | none => none
  | some position =>
      let rest := above.drop (position + domain.length)
      let entry := if rest.head? = some '/' then rest.tail else rest
      if entry = [] then none else some entry

theorem freedEntry_eq {path : List Char} (fits : path.length ≤ maxBuff) (user domain : List Char) :
    freedEntry user domain path = behindDomain domain (aboveUser user path) := by
  rw [freedEntry, List.take_of_length_le fits]
  rfl

theorem cutAt_aboveUser {user path : List Char} (named : user ≠ []) (occurs : user <:+: path) :
    CutAt user path (aboveUser user path) := by
  rw [aboveUser]
  rcases Option.isSome_iff_exists.mp ((strstr_isSome_iff path user).mpr occurs) with
    ⟨position, found⟩
  rcases exists_of_strstr found with ⟨before, behind, equal, length, first⟩
  rw [found]
  dsimp only
  subst length
  induction before using List.reverseRecOn with
  | nil =>
      rw [List.nil_append] at equal
      split
      · next slash =>
          refine .front equal ?_
          rw [equal, List.length_nil, Nat.zero_sub, List.getElem?_append_left
            (List.length_pos_iff.mpr named), ← List.head?_eq_getElem?] at slash
          exact slash
      · next other =>
          refine @CutAt.inside _ _ [] behind equal first (by simp) ?_
          intro _ starts
          apply other
          rw [equal, List.length_nil, Nat.zero_sub, List.getElem?_append_left
            (List.length_pos_iff.mpr named), ← List.head?_eq_getElem?]
          exact starts
  | append_singleton above char _ =>
      have count : (above ++ [char]).length - 1 = above.length := by simp
      have here : path[above.length]? = some char := by
        rw [equal]
        simp
      have front : path.take above.length = above := by
        rw [equal, List.append_assoc, List.append_assoc, List.take_left]
      rw [count, here, front]
      split
      · next slash =>
          cases slash
          exact .slash equal first
      · next other =>
          refine .inside equal first ?_ ?_
          · rw [List.getLast?_concat]
            exact other
          · intro none_
            simp at none_

theorem aboveUser_of_cutAt {user path above : List Char} (named : user ≠ [])
    (cut_ : CutAt user path above) : aboveUser user path = above := by
  rw [aboveUser]
  cases cut_ with
  | @slash _ behind equal first =>
      have count : (above ++ ['/']).length - 1 = above.length := by simp
      have here : path[above.length]? = some '/' := by
        rw [equal]
        simp
      rw [equal, strstr_first first behind, ← equal]
      dsimp only
      rw [count, here, if_pos rfl, equal, List.append_assoc, List.append_assoc, List.take_left]
  | @front behind equal starts =>
      have first : FirstBehind user [] := fun position early => absurd early (Nat.not_lt_zero _)
      have found := strstr_first first behind
      rw [List.nil_append] at found
      have here : path[0]? = some '/' := by
        rw [equal, List.getElem?_append_left (List.length_pos_iff.mpr named),
          ← List.head?_eq_getElem?, starts]
      rw [equal, found, ← equal]
      dsimp only
      rw [List.length_nil, Nat.zero_sub, here, if_pos rfl, List.take_zero]
  | @inside before behind equal first last starts =>
      rw [equal, strstr_first first behind, ← equal]
      dsimp only
      rw [if_neg]
      rcases List.eq_nil_or_concat' before with rfl | ⟨front, char, rfl⟩
      · rw [equal, List.length_nil, Nat.zero_sub, List.nil_append, List.getElem?_append_left
          (List.length_pos_iff.mpr named), ← List.head?_eq_getElem?]
        exact starts rfl
      · have here : path[(front ++ [char]).length - 1]? = some char := by
          rw [equal]
          simp
        rw [List.getLast?_concat] at last
        rwa [here]

theorem behindDomain_append {domain before : List Char} (first : FirstBehind domain before)
    (rest : List Char) :
    behindDomain domain (before ++ domain ++ rest) =
      if (if rest.head? = some '/' then rest.tail else rest) = [] then none
      else some (if rest.head? = some '/' then rest.tail else rest) := by
  have dropped : (before ++ domain ++ rest).drop (before.length + domain.length) = rest := by
    rw [← List.length_append, List.drop_left]
  rw [behindDomain, strstr_first first rest]
  simp only [dropped]

theorem behindDomain_cases (domain above : List Char) :
    (¬ domain <:+: above ∧ behindDomain domain above = none) ∨
      ∃ before separator rest, above = before ++ domain ++ separator ++ rest ∧
        FirstBehind domain before ∧ (separator = ['/'] ∨ separator = [] ∧ rest.head? ≠ some '/') ∧
        behindDomain domain above = if rest = [] then none else some rest := by
  cases found : strstr above domain with
  | none =>
      left
      refine ⟨(strstr_eq_none_iff _ _).mp found, ?_⟩
      rw [behindDomain, found]
  | some position =>
      right
      rcases exists_of_strstr found with ⟨before, behind, rfl, -, first⟩
      rw [behindDomain_append first]
      by_cases slash : behind.head? = some '/'
      · rcases List.head?_eq_some_iff.mp slash with ⟨rest, rfl⟩
        exact ⟨before, ['/'], rest, by simp, first, .inl rfl, by simp⟩
      · exact ⟨before, [], behind, by simp, first, .inr ⟨rfl, slash⟩, by simp only [if_neg slash]⟩

theorem behindDomain_of_separated {domain before separator rest : List Char}
    (first : FirstBehind domain before)
    (separated : separator = ['/'] ∨ separator = [] ∧ rest.head? ≠ some '/') :
    behindDomain domain (before ++ domain ++ separator ++ rest) =
      if rest = [] then none else some rest := by
  rw [List.append_assoc _ separator, behindDomain_append first]
  rcases separated with rfl | ⟨rfl, other⟩
  · rw [List.cons_append, List.nil_append, List.head?_cons, if_pos rfl, List.tail_cons]
  · rw [List.nil_append, if_neg other]

/-! ## The deletions that record their hash -/

section Recording

variable {domain : Users.Domain}

/-- The deletions that append their hash, so that it can be read back, or nothing if there is
none. -/
inductive Recorded (deletion : Deletion domain) : Prop
  | slot : Freed deletion.user domain.name deletion.path deletion.hash → Slot deletion.hash →
      Recorded deletion
  | nothing : deletion.hash = [] → Freed deletion.user domain.name deletion.path [] →
      Recorded deletion
  | unnamed {above : List Char} : deletion.hash = [] → CutAt deletion.user deletion.path above →
      ¬ domain.name <:+: above → Recorded deletion

theorem Deletion.length_path (deletion : Deletion domain) : deletion.path.length ≤ maxBuff := by
  have fits := deletion.fits
  have bound : maxPwDir + 2 ≤ maxBuff := by decide
  rw [Deletion.path, userDir]
  split
  · simp only [List.length_append, List.length_cons, List.length_nil]
    omega
  · simp only [List.length_append, List.length_cons]
    omega

theorem Deletion.user_infix (deletion : Deletion domain) : deletion.user <:+: deletion.path :=
  ((List.suffix_cons '/' deletion.user).trans (List.suffix_append _ _)).isInfix

theorem Deletion.entry_eq (deletion : Deletion domain) :
    freedEntry deletion.user domain.name deletion.path =
      behindDomain domain.name (aboveUser deletion.user deletion.path) :=
  freedEntry_eq deletion.length_path _ _

theorem Deletion.cut (deletion : Deletion domain) :
    CutAt deletion.user deletion.path (aboveUser deletion.user deletion.path) :=
  cutAt_aboveUser deletion.named deletion.user_infix

theorem entry_of_freed {deletion : Deletion domain} {hash : List Char}
    (freed : Freed deletion.user domain.name deletion.path hash) :
    freedEntry deletion.user domain.name deletion.path =
      if hash = [] then none else some hash := by
  rcases freed with ⟨above, cut_, before, separator, equal, first, separated⟩
  rw [deletion.entry_eq, aboveUser_of_cutAt deletion.named cut_, equal,
    behindDomain_of_separated first separated]

theorem Recorded.entry {deletion : Deletion domain} (recorded : Recorded deletion) :
    freedEntry deletion.user domain.name deletion.path =
      if deletion.hash = [] then none else some deletion.hash := by
  cases recorded with
  | slot freed isSlot => exact entry_of_freed freed
  | nothing none_ freed =>
      rw [if_pos none_]
      exact entry_of_freed freed
  | unnamed none_ cut_ missing =>
      have nothing : behindDomain domain.name (aboveUser deletion.user deletion.path) = none := by
        rw [aboveUser_of_cutAt deletion.named cut_, behindDomain,
          (strstr_eq_none_iff _ _).mpr missing]
      rw [if_pos none_, deletion.entry_eq, nothing]

theorem Recorded.isSlot {deletion : Deletion domain} (recorded : Recorded deletion)
    (some_ : deletion.hash ≠ []) : Slot deletion.hash := by
  cases recorded with
  | slot freed isSlot => exact isSlot
  | nothing none_ freed => exact absurd none_ some_
  | unnamed none_ cut_ missing => exact absurd none_ some_

/-- A deletion puts its hash behind the slots. -/
theorem delete_refines {deletion : Deletion domain} (recorded : Recorded deletion)
    {slots : List (List Char)} {file : Option (List Char)} (holds : HoldsSlots file slots)
    (opened : Bool) :
    (backfillStep file (.delete opened deletion)).1 =
        (Queue.step slots (SlotOperation.delete opened deletion).event).1 ∧
      HoldsSlots (backfillStep file (.delete opened deletion)).2
        (Queue.step slots (SlotOperation.delete opened deletion).event).2 := by
  rw [backfillStep, recorded.entry, SlotOperation.event]
  by_cases none_ : deletion.hash = []
  · rw [if_pos none_, decide_eq_false (not_not_intro none_), Bool.and_false]
    exact ⟨rfl, holds⟩
  · rw [if_neg none_, decide_eq_true none_, Bool.and_true]
    cases opened with
    | false => exact ⟨rfl, holds⟩
    | true =>
        refine ⟨rfl, ?_, ?_⟩
        · intro slot member
          rcases List.mem_append.mp member with old | new
          · exact holds.1 slot old
          · rw [List.mem_singleton.mp new]
            exact recorded.isSlot none_
        · have stored := holds.2
          simp [addEntry, stored, printLines, Queue.step]

theorem backfillStep_refines {file : Option (List Char)} {slots : List (List Char)}
    {operation : SlotOperation domain} (holds : HoldsSlots file slots)
    (recorded : ∀ opened deletion, operation = .delete opened deletion → Recorded deletion) :
    (backfillStep file operation).1 = (Queue.step slots operation.event).1 ∧
      HoldsSlots (backfillStep file operation).2 (Queue.step slots operation.event).2 := by
  cases operation with
  | delete opened deletion => exact delete_refines (recorded opened deletion rfl) holds opened
  | allocate opened => exact backfillAllocate_refines holds opened

/-! ## Runs -/

/-- The slots that a run frees, in order. -/
def freedSlots (operations : List (SlotOperation domain)) : List (List Char) :=
  Queue.puts (operations.map SlotOperation.event)

/-- The slots that a run hands out, in order. -/
def handedOut (file : Option (List Char)) (operations : List (SlotOperation domain)) :
    List (List Char) :=
  Queue.taken (Queue.advanceAll backfillStep file operations).1

/-- The calls of a run return what those of the queue return and leave its slots in the file.
What is handed out and what is left are the old slots and the freed ones in order, and no slot is
handed out more often than it was there. -/
structure Backfilled (file : Option (List Char)) (slots : List (List Char))
    (operations : List (SlotOperation domain)) : Prop where
  results : (Queue.advanceAll backfillStep file operations).1 =
    (Queue.run slots (operations.map SlotOperation.event)).1
  stored : ((Queue.advanceAll backfillStep file operations).2).getD [] =
    printLines (Queue.run slots (operations.map SlotOperation.event)).2
  order : slots ++ freedSlots operations =
    handedOut file operations ++ (Queue.run slots (operations.map SlotOperation.event)).2
  atMost : ∀ slot, (handedOut file operations).count slot ≤
    (slots ++ freedSlots operations).count slot

theorem backfilled_of_recorded {file : Option (List Char)} {slots : List (List Char)}
    {operations : List (SlotOperation domain)} (holds : HoldsSlots file slots)
    (recorded : ∀ opened deletion, .delete opened deletion ∈ operations → Recorded deletion) :
    Backfilled file slots operations := by
  have guarded : ∀ operation ∈ operations, ∀ opened deletion,
      operation = .delete opened deletion → Recorded deletion :=
    fun operation member opened deletion equal => recorded opened deletion (equal ▸ member)
  have simulates : ∀ file slots (operation : SlotOperation domain), HoldsSlots file slots →
      (∀ opened deletion, operation = .delete opened deletion → Recorded deletion) →
      (backfillStep file operation).1 = (Queue.step slots operation.event).1 ∧
        HoldsSlots (backfillStep file operation).2 (Queue.step slots operation.event).2 :=
    fun _ _ _ held meets => backfillStep_refines held meets
  rcases Queue.run_refines backfillStep SlotOperation.event HoldsSlots simulates holds guarded
    with ⟨results, held⟩
  have handed : handedOut file operations =
      Queue.taken (Queue.run slots (operations.map SlotOperation.event)).1 :=
    congrArg Queue.taken results
  refine ⟨results, held.2, ?_, ?_⟩
  · rw [handed]
    exact Queue.run_conserves slots _
  · intro slot
    rw [handed]
    exact Queue.count_taken_le slots _ slot

/-! ## The other deletions -/

theorem freed_of_entry {deletion : Deletion domain} {hash : List Char}
    (entry : freedEntry deletion.user domain.name deletion.path = some hash) :
    Freed deletion.user domain.name deletion.path hash := by
  rw [deletion.entry_eq] at entry
  rcases behindDomain_cases domain.name (aboveUser deletion.user deletion.path) with
    ⟨-, nothing⟩ | ⟨before, separator, rest, equal, first, separated, found⟩
  · rw [nothing] at entry
    cases entry
  · rw [found] at entry
    split at entry
    · cases entry
    · cases entry
      exact ⟨_, deletion.cut, before, separator, equal, first, separated⟩

theorem recorded_of_none {deletion : Deletion domain} (none_ : deletion.hash = [])
    (entry : freedEntry deletion.user domain.name deletion.path = none) : Recorded deletion := by
  rw [deletion.entry_eq] at entry
  rcases behindDomain_cases domain.name (aboveUser deletion.user deletion.path) with
    ⟨missing, -⟩ | ⟨before, separator, rest, equal, first, separated, found⟩
  · exact .unnamed none_ deletion.cut missing
  · rw [found] at entry
    split at entry
    · next empty =>
        subst empty
        exact .nothing none_ ⟨_, deletion.cut, before, separator, equal, first, separated⟩
    · cases entry

theorem starts_dropWhile (text : List Char) :
    ∀ head ∈ (text.dropWhile Decimal.isSpace).head?, Decimal.isSpace head = false := by
  intro head member
  have stops := List.head?_dropWhile_not Decimal.isSpace text
  rw [Option.mem_def.mp member] at stops
  simpa using stops

/-- A chunk that ends in a newline has no other one. -/
theorem exists_of_shape {body tail : List Char} (free : Free '\n' body) (ends : Ends tail)
    (last : (cstring (body ++ tail)).getLast? = some '\n') :
    ∃ front, cstring (body ++ tail) = front ++ ['\n'] ∧ Free '\n' front := by
  rcases List.getLast?_eq_some_iff.mp last with ⟨front, equal⟩
  refine ⟨front, equal, ?_⟩
  have inChunk : front ++ ['\n'] <+: body ++ tail := equal ▸ List.takeWhile_prefix _
  have length : front.length ≤ body.length := by
    have bound := inChunk.length_le
    rcases ends with rfl | rfl
    · simp only [List.length_append, List.length_singleton, List.length_nil] at bound
      omega
    · simpa using bound
  have inBody : front <+: body :=
    List.prefix_of_prefix_length_le ((List.prefix_append front _).trans inChunk)
      (List.prefix_append body tail) length
  exact fun member => free (inBody.subset member)

/-- What is read of a chunk has no comment and no newline, and does not start with a space. -/
theorem free_of_freeEntryIn {chunks : List (List Char)} {entry : List Char}
    (shaped : ∀ chunk ∈ chunks, ∃ body tail, Free '\n' body ∧ Ends tail ∧ chunk = body ++ tail)
    (read : freeEntryIn chunks = some entry) :
    Free '\n' entry ∧ Free '#' entry ∧ ∀ head ∈ entry.head?, Decimal.isSpace head = false := by
  induction chunks with
  | nil => cases read
  | cons chunk chunks induction =>
      rcases shaped chunk List.mem_cons_self with ⟨body, tail, free, ends, rfl⟩
      rw [freeEntryIn] at read
      split at read
      · cases read
      · next last =>
          rcases exists_of_shape free ends (not_not.mp last) with ⟨front, equal, frontFree⟩
          simp only [equal] at read
          split at read
          · exact induction (fun other member => shaped other (List.mem_cons_of_mem _ member)) read
          · next some_ =>
              have inFront : ∃ part, part <+: front ∧ Free '#' part ∧
                  entry = part.dropWhile Decimal.isSpace := by
                rcases free_or_eq_append_cons '#' front with missing | ⟨part, rest, partFree, rfl⟩
                · have whole : (front ++ ['\n']).takeWhile (· ≠ '#') = front ++ ['\n'] :=
                    takeWhile_ne_of_free (free_append.mpr ⟨missing, by decide⟩)
                  have plain : '#' ∉ front ++ ['\n'] := free_append.mpr ⟨missing, by decide⟩
                  rw [whole, List.dropWhile_append] at some_
                  rw [whole, if_neg plain, List.dropWhile_append] at read
                  by_cases blank_ : (front.dropWhile Decimal.isSpace).isEmpty
                  · rw [if_pos blank_] at some_
                    exact absurd (by decide) some_
                  · rw [if_neg blank_, List.dropLast_concat] at read
                    exact ⟨front, List.prefix_rfl, missing, (Option.some.inj read).symm⟩
                · have shorter : (part ++ '#' :: rest ++ ['\n']).takeWhile (· ≠ '#') = part := by
                    rw [List.append_assoc]
                    exact takeWhile_ne_append_cons partFree _
                  rw [shorter, if_pos (by simp)] at read
                  exact ⟨part, List.prefix_append _ _, partFree, (Option.some.inj read).symm⟩
              rcases inFront with ⟨part, inside, plain, rfl⟩
              have smaller := (List.dropWhile_sublist (l := part) Decimal.isSpace).subset
              exact ⟨fun member => frontFree (inside.subset (smaller member)),
                fun member => plain (smaller member), starts_dropWhile part⟩

/-- A hash that is handed out from its line is a slot. -/
theorem slot_of_freeEntry {deletion : Deletion domain} (some_ : deletion.hash ≠ [])
    (read : freeEntry (some (deletion.hash ++ ['\n'])) = some deletion.hash) :
    Slot deletion.hash := by
  rw [freeEntry, Option.bind_some] at read
  rcases free_of_freeEntryIn
    (fun chunk member => (chunk_of_mem_fgetsLoop (by decide) member).2) read with
    ⟨newline, comment, start⟩
  have fits := deletion.fits
  have bound : maxPwDir + 1 < maxBuff - 2 := by decide
  exact ⟨some_, deletion.plain, newline, comment, start, by omega⟩

theorem freeEntry_of_allocate {file : Option (List Char)} {opened : Bool} {slot : List Char}
    (allocated : (backfillAllocate opened file).1 = some slot) : freeEntry file = some slot := by
  rw [backfillAllocate] at allocated
  cases found : freeEntry file with
  | none =>
      rw [found] at allocated
      cases allocated
  | some entry =>
      simp only [found] at allocated
      split at allocated
      · exact allocated
      · cases allocated

theorem recorded_of_backfilled {deletion : Deletion domain}
    (once : Backfilled none [] [.delete true deletion])
    (again : Backfilled none [] [.delete true deletion, .allocate true]) : Recorded deletion := by
  have stored : (addEntry true none
      (freedEntry deletion.user domain.name deletion.path)).getD [] =
        printLines (Queue.step [] (SlotOperation.delete true deletion).event).2 := once.stored
  rw [SlotOperation.event, Bool.true_and] at stored
  by_cases none_ : deletion.hash = []
  · rw [decide_eq_false (not_not_intro none_)] at stored
    cases entry : freedEntry deletion.user domain.name deletion.path with
    | none => exact recorded_of_none none_ entry
    | some found =>
        rw [entry] at stored
        simp [addEntry, printLines, Queue.step] at stored
  · rw [decide_eq_true none_] at stored
    cases entry : freedEntry deletion.user domain.name deletion.path with
    | none =>
        rw [entry] at stored
        simp [addEntry, printLines, Queue.step] at stored
    | some found =>
        have same : found = deletion.hash := by
          rw [entry] at stored
          simpa [addEntry, printLines, Queue.step] using stored
        subst same
        have results := again.results
        simp only [Queue.advanceAll, List.map_cons, List.map_nil, Queue.run, backfillStep, entry,
          SlotOperation.event, Bool.true_and, decide_eq_true none_, Queue.step,
          List.cons.injEq, true_and, and_true] at results
        exact .slot (freed_of_entry entry) (slot_of_freeEntry none_ (freeEntry_of_allocate results))

/-- The runs over some deletions all refine the queue exactly if each of these is recorded. -/
theorem backfilled_iff (deletions : Set (Deletion domain)) :
    (∀ file slots operations, HoldsSlots file slots →
      (∀ opened deletion, .delete opened deletion ∈ operations → deletion ∈ deletions) →
        Backfilled file slots operations) ↔
      ∀ deletion ∈ deletions, Recorded deletion := by
  constructor
  · intro runs deletion member
    have initially : HoldsSlots none [] := ⟨fun slot inside => absurd inside List.not_mem_nil, rfl⟩
    apply recorded_of_backfilled
    · apply runs none [] _ initially
      intro opened other inside
      cases List.mem_singleton.mp inside
      exact member
    · apply runs none [] _ initially
      intro opened other inside
      rcases List.mem_cons.mp inside with equal | later
      · cases equal
        exact member
      · cases List.mem_singleton.mp later
  · intro recorded file slots operations holds inside
    exact backfilled_of_recorded holds fun opened deletion member =>
      recorded deletion (inside opened deletion member)

end Recording

/-- The user `om` in `/home/b.c/0`. -/
def omDeletion :
    Deletion ⟨true, ['b', '.', 'c'], ['/', 'h', 'o', 'm', 'e', '/', 'b', '.', 'c']⟩ where
  user := ['o', 'm']
  hash := ['0']
  named := by decide
  domainNamed := by decide
  plain := by decide
  fits := by decide

/-- The path is not cut in `/home`, and the user is recorded with the hash. -/
theorem backfill_records_user :
    (Queue.advanceAll backfillStep none [.delete true omDeletion, .allocate true]).1 =
        [none, some ['0', '/', 'o', 'm']] ∧
      ¬ Backfilled none [] [.delete true omDeletion] := by
  have handed : (Queue.advanceAll backfillStep none
      [.delete true omDeletion, .allocate true]).1 = [none, some ['0', '/', 'o', 'm']] := by
    decide +kernel
  have stored : ((Queue.advanceAll backfillStep none [.delete true omDeletion]).2).getD [] ≠
      printLines (Queue.run [] ([.delete true omDeletion].map SlotOperation.event)).2 := by
    decide +kernel
  exact ⟨handed, fun backfilled => stored backfilled.stored⟩

end Vpopmail

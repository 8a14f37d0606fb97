import Vpopmail.DomainEntries

/-! # The lines of `users/assign`

Which lines are the entry of a domain, and which ones `get_domain_entries` takes for one.
-/

namespace Vpopmail

open Text

/-! ## Lines of entries -/

/-- A field that is not empty and is ended by a colon, and what is behind the colon. -/
def assignField (text : List Char) : Option (List Char × List Char) :=
  match cut ':' text with
  | (_, none) => none
  | ([], some _) => none
  | (field, some rest) => some (field, rest)

/-- The entry that a line of `users/assign` is: `+name-:real:uid:gid:dir:`, whatever is
behind it. -/
def assignEntry (line : List Char) : Option DomainEntry :=
  match line with
  | '+' :: text =>
      (assignField text).bind fun (name, text) =>
        (assignField text).bind fun (realDomain, text) =>
          (assignField text).bind fun (uid, text) =>
            (assignField text).bind fun (gid, text) =>
              (assignField text).bind fun (path, _) =>
                if name.getLast? = some '-' ∧ name.dropLast ≠ [] ∧
                    uid.all Char.isDigit ∧ gid.all Char.isDigit then
                  some ⟨name.dropLast, realDomain, Decimal.atoi uid, Decimal.atoi gid, path⟩
                else none
  | _ => none

/-! ## Fields -/

/-- A field, and the colons in front of it that do not belong there. -/
structure GappedField where
  gap : Nat
  text : List Char

def GappedField.cells (field : GappedField) : List Char :=
  List.replicate field.gap ':' ++ field.text

structure GappedField.Readable (field : GappedField) : Prop where
  nonempty : field.text ≠ []
  colon : Free ':' field.text

/-- What `strtok` takes is in front of a colon, or of nothing. -/
theorem strtok_colon {text token rest : List Char}
    (read : strtok colon text = some (token, rest)) :
    ∃ field : GappedField, field.Readable ∧ field.text = token ∧
      (text = field.cells ∧ rest = [] ∨ text = field.cells ++ ':' :: rest) := by
  rw [strtok] at read
  have parts := List.takeWhile_append_dropWhile (p := colon) (l := text)
  have gap : text.takeWhile colon = List.replicate (text.takeWhile colon).length ':' := by
    apply List.eq_replicate_of_mem
    intro char member
    have delimits : colon char = true := List.mem_takeWhile_imp member
    exact of_decide_eq_true delimits
  cases start : text.dropWhile colon with
  | nil =>
      rw [start] at read
      cases read
  | cons head tail =>
      rw [start] at read parts
      have headPlain : colon head = false := by
        have first := List.head?_dropWhile_not colon text
        rw [start] at first
        simpa using first
      have behind := List.takeWhile_append_dropWhile (p := fun char => !colon char)
        (l := head :: tail)
      have pair := Option.some.inj read
      rw [Prod.mk.injEq] at pair
      rw [pair.1] at behind
      refine ⟨⟨(text.takeWhile colon).length, token⟩, ⟨?_, ?_⟩, rfl, ?_⟩
      · rw [← pair.1, List.takeWhile_cons_of_pos (by rw [headPlain]; rfl)]
        exact List.cons_ne_nil _ _
      · intro member
        rw [← pair.1] at member
        have plain := List.mem_takeWhile_imp member
        cases plain
      · rw [GappedField.cells, ← gap]
        cases left : (head :: tail).dropWhile fun char => !colon char with
        | nil =>
            rw [left] at behind pair
            rw [List.append_nil] at behind
            exact .inl ⟨by rw [behind, parts], pair.2.symm⟩
        | cons stop others =>
            have stopColon : stop = ':' := by
              have first := List.head?_dropWhile_not (fun char => !colon char) (head :: tail)
              rw [left] at first
              have delimits : colon stop = true := by simpa using first
              exact of_decide_eq_true delimits
            rw [left] at behind pair
            have others_eq : others = rest := pair.2
            rw [stopColon, others_eq] at behind
            exact .inr (by rw [List.append_assoc, behind, parts])

/-- A token that another one follows is in front of a colon. -/
theorem strtok_colon_cons {text token rest : List Char} {next : List Char × List Char}
    (read : strtok colon text = some (token, rest)) (more : strtok colon rest = some next) :
    ∃ field : GappedField, field.Readable ∧ field.text = token ∧
      text = field.cells ++ ':' :: rest := by
  rcases strtok_colon read with ⟨field, readable, same, ⟨_, empty⟩ | whole⟩
  · rw [empty] at more
    cases more
  · exact ⟨field, readable, same, whole⟩

section Fields

variable {field : GappedField}

theorem strtok_cells_append (readable : field.Readable) (rest : List Char) :
    strtok colon (field.cells ++ ':' :: rest) = some (field.text, rest) := by
  have skipped : (field.cells ++ ':' :: rest).dropWhile colon =
      (field.text ++ ':' :: rest).dropWhile colon := by
    rw [GappedField.cells, List.append_assoc, List.dropWhile_append_of_pos]
    intro char member
    exact decide_eq_true (List.eq_of_mem_replicate member)
  have read := strtok_field readable.colon readable.nonempty rest
  rw [strtok] at read ⊢
  rw [skipped]
  exact read

theorem strtok_cells (readable : field.Readable) :
    strtok colon field.cells = some (field.text, []) := by
  have skipped : field.cells.dropWhile colon = field.text.dropWhile colon := by
    rw [GappedField.cells, List.dropWhile_append_of_pos]
    intro char member
    exact decide_eq_true (List.eq_of_mem_replicate member)
  have plain : ∀ char ∈ field.text, colon char = false := by
    intro char member
    exact decide_eq_false fun equal => readable.colon (equal ▸ member)
  have read := strtok_token readable.nonempty plain
  rw [strtok] at read ⊢
  rw [skipped]
  exact read

/-- A field of an entry has no colons in front. -/
theorem assignField_cells (readable : field.Readable) (rest : List Char) :
    assignField (field.cells ++ ':' :: rest) =
      if field.gap = 0 then some (field.text, rest) else none := by
  rcases field with ⟨gap, text⟩
  cases gap with
  | zero =>
      have read := cut_append_cons readable.colon rest
      have nonempty : text ≠ [] := readable.nonempty
      cases text with
      | nil => exact absurd rfl nonempty
      | cons head tail =>
          rw [if_pos rfl, GappedField.cells, List.replicate_zero, List.nil_append, assignField,
            read]
  | succ gap =>
      rw [if_neg (Nat.succ_ne_zero gap)]
      rfl

theorem assignField_bind {β : Type} (readable : field.Readable) (rest : List Char)
    (next : List Char × List Char → Option β) :
    (assignField (field.cells ++ ':' :: rest)).bind next =
      if field.gap = 0 then next (field.text, rest) else none := by
  rw [assignField_cells readable]
  split
  · rfl
  · rfl

/-- A field without a colon behind it is not ended. -/
theorem assignField_unended (readable : field.Readable) : assignField field.cells = none := by
  rcases field with ⟨gap, text⟩
  cases gap with
  | zero =>
      rw [GappedField.cells, List.replicate_zero, List.nil_append, assignField,
        cut_of_free readable.colon]
  | succ gap => rfl

theorem assignField_eq {text value rest : List Char}
    (read : assignField text = some (value, rest)) :
    value ≠ [] ∧ Free ':' value ∧ text = value ++ ':' :: rest := by
  rw [assignField] at read
  rcases free_or_eq_append_cons ':' text with free | ⟨first, behind, free, rfl⟩
  · rw [cut_of_free free] at read
    cases read
  · rw [cut_append_cons free] at read
    cases first with
    | nil => cases read
    | cons head tail =>
        cases read
        exact ⟨List.cons_ne_nil _ _, free, rfl⟩

end Fields

/-! ## Spellings -/

/-- A line with the five fields of an entry. Colons that do not belong there may stand in
front of all of them but the real domain. -/
structure Spelling where
  front : Nat
  name : List Char
  realDomain : List Char
  uid : GappedField
  gid : GappedField
  path : GappedField
  tail : List Char

namespace Spelling

def first (spelling : Spelling) : GappedField := ⟨spelling.front, spelling.name ++ ['-']⟩

def real (spelling : Spelling) : GappedField := ⟨0, spelling.realDomain⟩

def line (spelling : Spelling) : List Char :=
  '+' :: (spelling.first.cells ++ ':' :: (spelling.real.cells ++
    ':' :: (spelling.uid.cells ++ ':' :: (spelling.gid.cells ++
      ':' :: (spelling.path.cells ++ spelling.tail)))))

def entry (spelling : Spelling) : DomainEntry where
  domain := spelling.name
  realDomain := spelling.realDomain
  uid := Decimal.atoi spelling.uid.text
  gid := Decimal.atoi spelling.gid.text
  path := spelling.path.text

/-- The lines that `get_domain_entries` takes for entries. -/
structure Readable (spelling : Spelling) : Prop where
  dotted : '.' ∈ spelling.name
  first : spelling.first.Readable
  real : spelling.real.Readable
  uid : spelling.uid.Readable
  gid : spelling.gid.Readable
  path : spelling.path.Readable
  ended : spelling.tail = [] ∨ ∃ behind, spelling.tail = ':' :: behind

/-- The form that `add_domain_assign` writes: single colons, numbers for the uid and the gid,
and a colon behind the directory. -/
def Exact (spelling : Spelling) : Prop :=
  (spelling.front = 0 ∧ spelling.uid.gap = 0 ∧ spelling.gid.gap = 0 ∧ spelling.path.gap = 0) ∧
    (spelling.uid.text.all Char.isDigit ∧ spelling.gid.text.all Char.isDigit) ∧
      spelling.tail ≠ []

variable {spelling : Spelling}

theorem Readable.name_ne_nil (readable : spelling.Readable) : spelling.name ≠ [] :=
  List.ne_nil_of_mem readable.dotted

theorem parseEntry_line (readable : spelling.Readable) :
    parseEntry spelling.line = some spelling.entry := by
  have period : spelling.first.text.contains '.' = true := by
    simpa [first] using readable.dotted
  have long : ¬ spelling.first.text.length < 2 := by
    have positive := List.length_pos_iff.mpr readable.name_ne_nil
    rw [first, List.length_append, List.length_singleton]
    omega
  have last : spelling.first.text.getLast? = some '-' := by simp [first]
  have start : (spelling.real.cells ++ ':' :: (spelling.uid.cells ++ ':' :: (spelling.gid.cells ++
      ':' :: (spelling.path.cells ++ spelling.tail)))).head? ≠ some ':' := by
    have cells : spelling.real.cells = spelling.real.text := rfl
    rw [cells, List.head?_append_of_ne_nil _ readable.real.nonempty]
    exact fun head => readable.real.colon (List.mem_of_mem_head? head)
  have path : ∃ behind, strtok colon (spelling.path.cells ++ spelling.tail) =
      some (spelling.path.text, behind) := by
    rcases readable.ended with ended | ⟨behind, ended⟩
    · exact ⟨[], by rw [ended, List.append_nil, strtok_cells readable.path]⟩
    · exact ⟨behind, by rw [ended, strtok_cells_append readable.path]⟩
  rcases path with ⟨behind, path⟩
  rw [line, parseEntry, strtok_cells_append readable.first, Option.bind_some]
  simp only [period, Bool.not_true, Bool.false_eq_true, if_false]
  rw [strtok_cells_append readable.real, Option.bind_some]
  simp only [long, start, last, decide_false, Bool.or_self, ne_eq, not_true_eq_false,
    Bool.false_eq_true, if_false]
  rw [strtok_cells_append readable.uid, Option.bind_some, strtok_cells_append readable.gid,
    Option.bind_some, path, Option.map_some]
  simp [first, real, entry]

/-- Every line that is read has the five fields. -/
theorem exists_of_parseEntry {text : List Char} {entry : DomainEntry}
    (read : parseEntry text = some entry) :
    ∃ spelling : Spelling, spelling.Readable ∧ spelling.line = text ∧ spelling.entry = entry := by
  rw [parseEntry.eq_def] at read
  split at read
  · rename_i fields
    rw [Option.bind_eq_some_iff] at read
    rcases read with ⟨⟨domain, afterDomain⟩, domainRead, read⟩
    simp only [Option.ite_none_left_eq_some, Bool.not_eq_true', Bool.not_eq_false,
      Option.bind_eq_some_iff, Option.map_eq_some_iff] at read
    rcases read with ⟨dotted, ⟨realDomain, afterReal⟩, realRead, shape, ⟨uid, afterUid⟩, uidRead,
      ⟨gid, afterGid⟩, gidRead, ⟨path, afterPath⟩, pathRead, rfl⟩
    simp only [Bool.or_eq_true, decide_eq_true_eq, not_or, Decidable.not_not] at shape
    rcases shape with ⟨⟨long, start⟩, last⟩
    rcases strtok_colon_cons domainRead realRead with ⟨domain, domainReadable, rfl, rfl⟩
    rcases strtok_colon_cons realRead uidRead with ⟨⟨realGap, real⟩, realReadable, rfl, rfl⟩
    rcases strtok_colon_cons uidRead gidRead with ⟨uid, uidReadable, rfl, rfl⟩
    rcases strtok_colon_cons gidRead pathRead with ⟨gid, gidReadable, rfl, rfl⟩
    have single : realGap = 0 := by
      cases realGap with
      | zero => rfl
      | succ gap => exact absurd rfl start
    have named : domain.text = domain.text.dropLast ++ ['-'] :=
      (List.dropLast_append_getLast? '-' last).symm
    have cells : domain = ⟨domain.gap, domain.text.dropLast ++ ['-']⟩ := by
      rw [← named]
    have period : '.' ∈ domain.text.dropLast := by
      have member : '.' ∈ domain.text := by simpa using dotted
      rw [named, List.mem_append, List.mem_singleton] at member
      rcases member with inside | other
      · exact inside
      · cases other
    rcases strtok_colon pathRead with ⟨path, pathReadable, rfl, whole⟩
    have ended : ∃ tail, afterGid = path.cells ++ tail ∧
        (tail = [] ∨ ∃ behind, tail = ':' :: behind) := by
      rcases whole with ⟨whole, _⟩ | whole
      · exact ⟨[], whole.trans (List.append_nil _).symm, .inl rfl⟩
      · exact ⟨':' :: afterPath, whole, .inr ⟨afterPath, rfl⟩⟩
    rcases ended with ⟨tail, rfl, ended⟩
    refine ⟨⟨domain.gap, domain.text.dropLast, real, uid, gid, path, tail⟩,
      ⟨period, ?_, ?_, uidReadable, gidReadable, pathReadable, ended⟩, ?_, rfl⟩
    · rw [first, ← cells]
      exact domainReadable
    · subst single
      exact realReadable
    · subst single
      rw [line, first, ← cells, Spelling.real]
  · cases read

instance : Decidable spelling.Exact := by
  unfold Exact
  infer_instance

/-- Of the readable lines, those in the exact form are entries. -/
theorem assignEntry_line (readable : spelling.Readable) :
    assignEntry spelling.line = if spelling.Exact then some spelling.entry else none := by
  have path : assignField (spelling.path.cells ++ spelling.tail) =
      if spelling.path.gap = 0 ∧ spelling.tail ≠ [] then
        some (spelling.path.text, spelling.tail.drop 1)
      else none := by
    rcases readable.ended with ended | ⟨behind, ended⟩
    · rw [ended, List.append_nil, assignField_unended readable.path, if_neg]
      exact fun both => both.2 rfl
    · rw [ended, assignField_cells readable.path]
      simp
  have last : spelling.first.text.getLast? = some '-' := by simp [first]
  have name : spelling.first.text.dropLast = spelling.name := by simp [first]
  have nonempty := readable.name_ne_nil
  rw [line, assignEntry]
  simp only [assignField_bind readable.first, assignField_bind readable.real,
    assignField_bind readable.uid, assignField_bind readable.gid, path, last, name]
  grind [Exact, entry, first, real]

/-- Entries with a period in their names are read. -/
theorem exists_of_assignEntry {text : List Char} {entry : DomainEntry}
    (read : assignEntry text = some entry) (dotted : '.' ∈ entry.domain) :
    ∃ spelling : Spelling, spelling.Readable ∧ spelling.Exact ∧ spelling.line = text ∧
      spelling.entry = entry := by
  rw [assignEntry.eq_def] at read
  split at read
  · rename_i fields
    simp only [Option.bind_eq_some_iff, Option.ite_none_right_eq_some] at read
    rcases read with ⟨⟨name, afterName⟩, nameRead, ⟨real, afterReal⟩, realRead, ⟨uid, afterUid⟩,
      uidRead, ⟨gid, afterGid⟩, gidRead, ⟨path, behind⟩, pathRead, ⟨last, nonempty, uidDigits,
      gidDigits⟩, same⟩
    rcases assignField_eq nameRead with ⟨nameNonempty, nameFree, rfl⟩
    rcases assignField_eq realRead with ⟨realNonempty, realFree, afterName_eq⟩
    rcases assignField_eq uidRead with ⟨uidNonempty, uidFree, afterReal_eq⟩
    rcases assignField_eq gidRead with ⟨gidNonempty, gidFree, afterUid_eq⟩
    rcases assignField_eq pathRead with ⟨pathNonempty, pathFree, afterGid_eq⟩
    have named : name.dropLast ++ ['-'] = name := List.dropLast_append_getLast? '-' last
    cases Option.some.inj same
    refine ⟨⟨0, name.dropLast, real, ⟨0, uid⟩, ⟨0, gid⟩, ⟨0, path⟩, ':' :: behind⟩,
      ⟨dotted, ⟨?_, ?_⟩, ⟨realNonempty, realFree⟩, ⟨uidNonempty, uidFree⟩,
        ⟨gidNonempty, gidFree⟩, ⟨pathNonempty, pathFree⟩, .inr ⟨behind, rfl⟩⟩,
      ⟨⟨rfl, rfl, rfl, rfl⟩, ⟨uidDigits, gidDigits⟩, List.cons_ne_nil _ _⟩, ?_, rfl⟩
    · rw [first, named]
      exact nameNonempty
    · rw [first, named]
      exact nameFree
    · simp only at afterName_eq afterReal_eq afterUid_eq afterGid_eq
      simp [line, first, Spelling.real, GappedField.cells, named, afterName_eq, afterReal_eq,
        afterUid_eq, afterGid_eq]
  · cases read

end Spelling

theorem dotted_of_parseEntry {text : List Char} {entry : DomainEntry}
    (read : parseEntry text = some entry) : '.' ∈ entry.domain := by
  rcases Spelling.exists_of_parseEntry read with ⟨spelling, readable, rfl, rfl⟩
  exact readable.dotted

theorem parseEntry_of_assignEntry {text : List Char} {entry : DomainEntry}
    (read : assignEntry text = some entry) (dotted : '.' ∈ entry.domain) :
    parseEntry text = some entry := by
  rcases Spelling.exists_of_assignEntry read dotted with ⟨spelling, readable, _, rfl, rfl⟩
  exact Spelling.parseEntry_line readable

end Vpopmail

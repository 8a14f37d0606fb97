import Mathlib.Data.Nat.Find
import Vpopmail.MaildirEmail

/-! # Which account a Maildir belongs to

When `maildir_to_email` tells the account for which `make_user_dir` has made a Maildir.
-/

namespace Vpopmail

open Text Buffer Backfill

/-! ## Paths with a Maildir -/

theorem exists_front {text : List Char} {position : Nat} (behind : 0 < position)
    (occurs : maildirSlash <+: text.drop position) : ∃ front, MaildirFront text front := by
  let Occurs := fun position => 0 < position ∧ maildirSlash <+: text.drop position
  have bounded : ∀ position, Occurs position → position ≤ text.length := by
    intro position here
    by_contra beyond
    have nothing : text.drop position = [] := List.drop_eq_nil_of_le (by omega)
    have front := here.2
    rw [nothing, List.prefix_nil] at front
    cases front
  have here : Occurs position := ⟨behind, occurs⟩
  have last := Nat.findGreatest_spec (P := Occurs) (bounded position here) here
  rcases last.2 with ⟨rest, whole⟩
  have length : (text.take (Nat.findGreatest Occurs text.length)).length =
      Nat.findGreatest Occurs text.length :=
    List.length_take_of_le (bounded _ last)
  refine ⟨text.take (Nat.findGreatest Occurs text.length), @MaildirFront.inside _ _ rest ?_ ?_ ?_⟩
  · rw [List.append_assoc, whole, List.take_append_drop]
  · apply List.ne_nil_of_length_pos
    rw [length]
    exact last.1
  · intro later beyond again
    rw [length] at beyond
    exact Nat.findGreatest_is_greatest beyond (bounded later ⟨by omega, again⟩) ⟨by omega, again⟩

theorem MaildirFront.exists_rest {text front : List Char} (at_ : MaildirFront text front) :
    ∃ rest, text = front ++ '/' :: rest := by
  cases at_ with
  | inside whole _ _ => exact ⟨_, whole.trans (List.append_assoc _ _ _)⟩
  | ending whole _ => exact ⟨_, whole⟩

/-- The address that is returned for a path. -/
theorem emailAt_eq_iff {text front email : List Char} (at_ : MaildirFront text front)
    (clean : Free nul text) (given : email ≠ []) :
    (lastMaildir text).map (fun last => (last.map (emailAt text)).getD []) = .ok email ↔
      ∃ user domain, LeadsTo front user domain ∧
        snprintf emailSize (user ++ '@' :: domain) = email := by
  rcases at_.exists_rest with ⟨rest, whole⟩
  have cleanFront : Free nul front := (free_append.mp (whole ▸ clean)).1
  rw [lastMaildir_of_front at_]
  show Except.ok (emailAt text front.length) = Except.ok email ↔ _
  rw [Except.ok.injEq, whole]
  constructor
  · intro returned
    by_cases leads : ∃ user domain, LeadsTo front user domain
    · rcases leads with ⟨user, domain, leads⟩
      rw [emailAt_of_leadsTo leads cleanFront] at returned
      exact ⟨user, domain, leads, returned⟩
    · have none : ∀ user domain, ¬ LeadsTo front user domain :=
        fun user domain leads' => leads ⟨user, domain, leads'⟩
      rw [emailAt_of_none none] at returned
      exact absurd returned.symm given
  · intro account
    rcases account with ⟨user, domain, leads, equal⟩
    rw [emailAt_of_leadsTo leads cleanFront, equal]

/-! ## Paths of accounts -/

/-- The path of the Maildir of an account, or below it, in a process with a current
directory. -/
structure AccountPath where
  cwd : List Char
  base : List Char
  domain : List Char
  hashes : List Char
  user : List Char
  suffix : List Char
  dotted : '.' ∈ domain
  domainName : Free '/' domain
  few : hashes.length ≤ 3
  hashNames : ∀ hash ∈ hashes, hash ≠ '/' ∧ hash ≠ '.'
  userName : Free '/' user
  folder : suffix = [] ∨ suffix.head? = some '/'
  strings : ∀ text ∈ [cwd, base, domain, hashes, user, suffix], Free nul text

namespace AccountPath

variable (account : AccountPath)

/-- The directories of the hash. -/
def hashDirs (hashes : List Char) : List Char := hashes.flatMap fun hash => ['/', hash]

/-- The directory of the user, in the domain's directory below `base`. -/
def home (base : List Char) : List Char :=
  base ++ '/' :: account.domain ++ hashDirs account.hashes ++ '/' :: account.user

def path (base : List Char) : List Char := account.home base ++ maildirEnd ++ account.suffix

/-- The path starts in the current directory. -/
def Relative : Prop := ['.', '/'] <+: account.base ++ ['/']

instance : Decidable account.Relative := inferInstanceAs (Decidable (_ <+: _))

/-- The base with the current directory in front. -/
def absoluteBase : List Char :=
  if account.Relative then account.cwd ++ account.base.tail else account.base

def email : List Char := account.user ++ '@' :: account.domain

/-- Another `/Maildir/` is taken for the one behind the user: behind it in the path, or, where
the path ends at it, in front of it. -/
def Strays : Prop :=
  maildirSlash <:+: (account.path account.absoluteBase).drop
    (if account.suffix = [] then 1 else (account.home account.absoluteBase).length + 1)

/-- The account is told: the current directory fits its buffer if it is needed, and the right
`/Maildir` is taken, the domain's directory is not in the root and the address fits. Otherwise,
the other `/Maildir/` leads to the same address. -/
def Told : Prop :=
  (account.Relative → account.cwd.length < maxBuff) ∧
    ((¬ account.Strays ∧ account.absoluteBase ≠ [] ∧ account.email.length < emailSize) ∨
      (account.Strays ∧ ∃ front user domain,
        MaildirFront (account.path account.absoluteBase) front ∧ LeadsTo front user domain ∧
          snprintf emailSize (user ++ '@' :: domain) = account.email))

variable {account} {base : List Char}

theorem free_hashDirs {hashes : List Char} (clean : Free nul hashes) :
    Free nul (hashDirs hashes) := by
  intro member
  rcases List.mem_flatMap.mp member with ⟨hash, inside, here⟩
  rcases List.mem_pair.mp here with slash | same
  · exact absurd slash (by decide)
  · exact clean (same ▸ inside)

theorem free_path (clean : Free nul base) : Free nul (account.path base) := by
  have strings := account.strings
  simp only [List.forall_mem_cons] at strings
  rcases strings with ⟨-, -, domain, hashes, user, suffix, -⟩
  simp only [path, home, free_append, free_cons]
  exact ⟨⟨⟨⟨⟨clean, by decide, domain⟩, free_hashDirs hashes⟩, by decide, user⟩, by decide⟩,
    suffix⟩

theorem free_absoluteBase : Free nul account.absoluteBase := by
  have strings := account.strings
  simp only [List.forall_mem_cons] at strings
  rw [absoluteBase]
  split
  · rw [free_append]
    exact ⟨strings.1, fun member => strings.2.1 (List.mem_of_mem_tail member)⟩
  · exact strings.2.1

theorem absolute_path : absolute account.cwd (account.path account.base) =
    if account.Relative ∧ ¬ account.cwd.length < maxBuff then .error .outOfBounds
    else .ok (account.path account.absoluteBase) := by
  have relative : ['.', '/'] <+: account.path account.base ↔ account.Relative := by
    have whole : account.path account.base = (account.base ++ ['/']) ++
        (account.domain ++ hashDirs account.hashes ++ '/' :: account.user ++ maildirEnd ++
          account.suffix) := by
      simp [path, home]
    rw [whole, Relative]
    rcases account.base with - | ⟨first, - | ⟨second, base⟩⟩
    · simp
    · simp
    · simp
  rw [absolute]
  by_cases starts : account.Relative
  · have tail : account.cwd ++ (account.path account.base).tail =
        account.path account.absoluteBase := by
      rw [absoluteBase, if_pos starts]
      rcases base : account.base with - | ⟨first, base⟩
      · rw [Relative, base] at starts
        exact absurd starts (by decide)
      · simp [path, home]
    rw [if_pos (relative.mpr starts), tail]
    by_cases fits : account.cwd.length < maxBuff
    · rw [if_pos fits, if_neg (fun none => none.2 fits)]
    · rw [if_neg fits, if_pos ⟨starts, fits⟩]
  · rw [if_neg (mt relative.mp starts), if_neg (fun none => starts none.1), absoluteBase,
      if_neg starts]

/-! ## The right Maildir -/

theorem hashDirs_concat (before hashes : List Char) (hash : Char) :
    before ++ hashDirs (hashes ++ [hash]) = before ++ hashDirs hashes ++ '/' :: [hash] := by
  simp [hashDirs]

theorem domainOf_hashDirs {hashes before domain : List Char}
    (names : ∀ hash ∈ hashes, hash ≠ '/' ∧ hash ≠ '.') (domainOf : DomainOf before domain) :
    DomainOf (before ++ hashDirs hashes) domain := by
  induction hashes using List.reverseRecOn with
  | nil => simpa [hashDirs] using domainOf
  | append_singleton hashes hash induction =>
      rw [List.forall_mem_append] at names
      have last := names.2 hash (List.mem_singleton_self hash)
      rw [hashDirs_concat]
      apply DomainOf.above _ _ (induction names.1)
      · simpa [Free] using last.1.symm
      · simpa [Free] using last.2.symm

theorem domainOf_of_hashDirs {hashes before domain : List Char}
    (names : ∀ hash ∈ hashes, hash ≠ '/' ∧ hash ≠ '.')
    (domainOf : DomainOf (before ++ hashDirs hashes) domain) : DomainOf before domain := by
  induction hashes using List.reverseRecOn with
  | nil => simpa [hashDirs] using domainOf
  | append_singleton hashes hash induction =>
      rw [List.forall_mem_append] at names
      have last := names.2 hash (List.mem_singleton_self hash)
      have free : Free '/' [hash] := by simpa [Free] using last.1.symm
      rw [hashDirs_concat] at domainOf
      generalize whole : before ++ hashDirs hashes ++ '/' :: [hash] = text at domainOf
      cases domainOf with
      | here _ freeDomain dotted =>
          have same := (append_cons_last_inj free freeDomain whole).2
          rw [← same, List.mem_singleton] at dotted
          exact absurd dotted.symm last.2
      | above freeComponent _ above =>
          have same := (append_cons_last_inj free freeComponent whole).1
          exact induction names.1 (same ▸ above)

theorem leadsTo_home (based : base ≠ []) :
    LeadsTo (account.home base) account.user account.domain :=
  .through rfl account.userName
    (domainOf_hashDirs account.hashNames (.here based account.domainName account.dotted))

/-- A domain's directory in the root is not found. -/
theorem not_leadsTo_home (user domain : List Char) :
    ¬ LeadsTo (account.home []) user domain := by
  intro leads
  cases leads with
  | through whole free domainOf =>
      have parts := append_cons_last_inj account.userName free whole
      rw [← parts.1] at domainOf
      have domainOf := domainOf_of_hashDirs account.hashNames domainOf
      generalize whole' : [] ++ '/' :: account.domain = text at domainOf
      cases domainOf with
      | here nonempty freeDomain _ =>
          exact nonempty (append_cons_last_inj account.domainName freeDomain whole').1.symm
      | above freeComponent _ above =>
          exact above.ne_nil (append_cons_last_inj account.domainName freeComponent whole').1.symm

theorem maildirFront_home (right : ¬ account.Strays) :
    MaildirFront (account.path account.absoluteBase) (account.home account.absoluteBase) := by
  rw [Strays, infix_drop_iff, not_exists] at right
  rcases account.folder with none | starts
  · rw [if_pos none] at right
    apply MaildirFront.ending
    · rw [path, none, List.append_nil]
    · intro position behind occurs
      exact right position ⟨behind, occurs⟩
  · rcases List.head?_eq_some_iff.mp starts with ⟨rest, folder⟩
    rw [if_neg (by rw [folder]; exact List.cons_ne_nil _ _)] at right
    refine @MaildirFront.inside _ _ rest ?_ ?_ ?_
    · rw [path, folder, maildirSlash]
      simp
    · simp [home]
    · intro position beyond occurs
      exact right position ⟨beyond, occurs⟩

theorem exists_front_of_strays (strays : account.Strays) :
    ∃ front, MaildirFront (account.path account.absoluteBase) front := by
  rw [Strays, infix_drop_iff] at strays
  rcases strays with ⟨position, behind, occurs⟩
  apply exists_front _ occurs
  split at behind <;> omega

theorem email_ne_nil : account.email ≠ [] := by
  simp [email]

/-- The right `/Maildir` leads to the address that is behind a base, if it fits. -/
theorem leadsTo_email_iff (right : ¬ account.Strays) :
    (∃ user domain, LeadsTo (account.home account.absoluteBase) user domain ∧
        snprintf emailSize (user ++ '@' :: domain) = account.email) ↔
      account.absoluteBase ≠ [] ∧ account.email.length < emailSize := by
  have at_ := maildirFront_home right
  have clean : Free nul (account.path account.absoluteBase) := free_path free_absoluteBase
  constructor
  · intro led
    have based : account.absoluteBase ≠ [] := by
      intro root
      rw [root] at led
      rcases led with ⟨user, domain, leads, -⟩
      exact not_leadsTo_home user domain leads
    have filled : snprintf emailSize account.email ≠ [] := by
      intro none
      rcases List.take_eq_nil_iff.mp none with empty | empty
      · exact absurd empty (by decide)
      · exact email_ne_nil empty
    have rightly := (emailAt_eq_iff at_ clean email_ne_nil).mpr led
    have again := (emailAt_eq_iff at_ clean filled).mpr
      ⟨account.user, account.domain, leadsTo_home based, rfl⟩
    have whole : snprintf emailSize account.email = account.email :=
      Except.ok.inj (again.symm.trans rightly)
    have bound := List.length_take_le (emailSize - 1) account.email
    have size : emailSize = 256 := rfl
    rw [snprintf] at whole
    rw [whole] at bound
    exact ⟨based, by omega⟩
  · intro told
    refine ⟨account.user, account.domain, leadsTo_home told.1, ?_⟩
    exact List.take_of_length_le (Nat.le_sub_one_of_lt told.2)

/-- The account of a Maildir is found exactly if it is told. -/
theorem maildirToEmail_inverts_iff (account : AccountPath) :
    maildirToEmail account.cwd (account.path account.base) = .ok account.email ↔
      account.Told := by
  have clean : Free nul (account.path account.absoluteBase) := free_path free_absoluteBase
  rw [maildirToEmail, absolute_path, Told]
  by_cases unknown : account.Relative ∧ ¬ account.cwd.length < maxBuff
  · rw [if_pos unknown]
    constructor
    · intro impossible
      cases impossible
    · intro told
      exact absurd (told.1 unknown.1) unknown.2
  · have known : account.Relative → account.cwd.length < maxBuff := by
      intro relative
      by_contra long
      exact unknown ⟨relative, long⟩
    rw [if_neg unknown]
    show (lastMaildir _).map _ = _ ↔ _
    by_cases strays : account.Strays
    · rcases exists_front_of_strays strays with ⟨front, at_⟩
      rw [emailAt_eq_iff at_ clean email_ne_nil]
      constructor
      · intro led
        rcases led with ⟨user, domain, leads, equal⟩
        exact ⟨known, .inr ⟨strays, front, user, domain, at_, leads, equal⟩⟩
      · intro told
        rcases told.2 with right | ⟨-, other, user, domain, atOther, leads, equal⟩
        · exact absurd strays right.1
        · rw [← emailAt_eq_iff at_ clean email_ne_nil, emailAt_eq_iff atOther clean email_ne_nil]
          exact ⟨user, domain, leads, equal⟩
    · rw [emailAt_eq_iff (maildirFront_home strays) clean email_ne_nil, leadsTo_email_iff strays]
      constructor
      · intro right
        exact ⟨known, .inl ⟨strays, right⟩⟩
      · intro told
        rcases told.2 with right | other
        · exact right.2
        · exact absurd other.1 strays

/-- A mailbox below a path that itself has a Maildir in it. -/
def strayPath : AccountPath where
  cwd := ['/']
  base := "/q/a.b/x/Maildir/v".toList
  domain := "b.c".toList
  hashes := []
  user := ['u']
  suffix := []
  dotted := by decide
  domainName := by decide
  few := by decide
  hashNames := List.forall_mem_nil _
  userName := by decide
  folder := .inl rfl
  strings := by decide

/-- Another account than the one of the Maildir is named. -/
theorem maildirToEmail_names_other :
    maildirToEmail strayPath.cwd (strayPath.path strayPath.base) = .ok "x@a.b".toList ∧
      strayPath.email = "u@b.c".toList := by
  decide

end AccountPath

end Vpopmail

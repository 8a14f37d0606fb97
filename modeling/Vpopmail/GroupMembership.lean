import Vpopmail.Foundation.Execution
import Vpopmail.GroupData

/-! # What becomes of the members of a group

`group_write` empties the stored list before it knows whether every member still has an
account, and `group_add` and `group_remove` report success whatever it returns. The stored
list follows the reports as long as every list that is written can be written.
-/

namespace Vpopmail.Groups

open Vpopmail Text Vpopmail.Stream Execution

/-! ## Members that can be written -/

/-- `group_write_member` gets through, to a file of its own. -/
def resolves (site : Site) (member : List Char) : Bool :=
  match cut '@' member with
  | (_, none) => false
  | (user, some domain) =>
      user.length < bufferSize &&
        match site.getpw user domain with
        | none => false
        | some dir => site.writable (memberFile dir) && memberFile dir ≠ site.group.datafile

def opensData (site : Site) : Bool :=
  site.group.datafile.head? = some '/' && site.writable site.group.datafile

/-- An address with the domain as `vauth_getpw` spells it. -/
def spellMember (realDomain : List Char → List Char) (member : List Char) : List Char :=
  match cut '@' member with
  | (_, none) => member
  | (user, some domain) => address user (realDomain domain)

section Names

variable {site : Site} {user domain dir : List Char}

theorem free_of_valid {char : Char} {valid : Char → Bool} (invalid : valid char = false)
    {name : List Char} (named : name.all valid = true) : Free char name := by
  intro member
  have allowed := List.all_eq_true.mp named char member
  rw [invalid] at allowed
  cases allowed

theorem free_of_lowerit {char : Char} (same : lowerChar char = char) {name : List Char}
    (short : (lowerit name).length ≤ maxPwName) (free : Free char (lowerit name)) :
    Free char name := by
  have whole : name.take 156 = name := by
    apply List.take_of_length_le
    rw [lowerit, List.length_map, List.length_take] at short
    unfold maxPwName at short
    omega
  intro member
  apply free
  rw [lowerit, whole]
  exact List.mem_map.mpr ⟨char, member, same⟩

/-- The address of an account fits a line of the data file. -/
theorem storable_address (found : site.getpw user domain = some dir) :
    Storable (address user (site.realDomain domain)) := by
  rcases site.accounts.named _ _ _ found with ⟨validUser, shortUser, validDomain, shortDomain⟩
  have free : ∀ char, lowerChar char = char → usernameChar char = false →
      domainChar char = false → char ≠ '@' →
        Free char (address user (site.realDomain domain)) := by
    intro char same noUser noDomain other
    rw [address, free_append, free_cons]
    exact ⟨free_of_lowerit same shortUser (free_of_valid noUser validUser), other,
      free_of_valid noDomain validDomain⟩
  constructor
  · exact free '\n' (by decide) (by decide) (by decide) (by decide)
  · exact free '\r' (by decide) (by decide) (by decide) (by decide)
  · exact free nul (by decide) (by decide) (by decide) (by decide)
  · rw [lowerit, List.length_map, List.length_take] at shortUser
    unfold maxPwName at shortUser
    unfold maxPwDomain at shortDomain
    rw [address, List.length_append, List.length_cons, bufferSize]
    omega

end Names

/-! ## Writing a list -/

section Write

variable {site : Site}

theorem groupWriteMember_resolves {member : List Char} (resolved : resolves site member = true)
    (files : Files) :
    Storable (spellMember site.realDomain member) ∧ ∃ after,
      groupWriteMember site files member = (true, spellMember site.realDomain member, after) := by
  rw [resolves] at resolved
  rw [spellMember, groupWriteMember]
  rcases parts : cut '@' member with ⟨user, rest⟩
  rw [parts] at resolved
  cases rest with
  | none => cases resolved
  | some domain =>
      simp only [Bool.and_eq_true, decide_eq_true_eq] at resolved
      rcases resolved with ⟨short, record⟩
      cases found : site.getpw user domain with
      | none =>
          rw [found] at record
          cases record
      | some dir =>
          rw [found] at record
          simp only [Bool.and_eq_true] at record
          refine ⟨storable_address found, ?_⟩
          simp only [if_neg (Nat.not_le.mpr short), found, record.1, Bool.not_true,
            Bool.false_eq_true, if_false]
          exact ⟨_, rfl⟩

theorem writeMembers_resolve {members : List (List Char)}
    (resolve : ∀ member ∈ members, resolves site member = true) (files : Files) :
    (∀ line ∈ members.map (spellMember site.realDomain), Storable line) ∧ ∃ after,
      writeMembers site members files =
        ⟨true, members.map (spellMember site.realDomain),
          members.map (spellMember site.realDomain), after⟩ := by
  induction members generalizing files with
  | nil => exact ⟨nofun, files, rfl⟩
  | cons head tail induction =>
      rcases groupWriteMember_resolves (resolve head List.mem_cons_self) files with
        ⟨storable, middle, written⟩
      rcases induction (fun member inside => resolve member (List.mem_cons_of_mem _ inside))
        middle with ⟨others, after, rest⟩
      refine ⟨List.forall_mem_cons.mpr ⟨storable, others⟩, after, ?_⟩
      simp only [writeMembers, written, rest, if_true, List.map_cons]

/-- The group with its members as `group_write` spells them. -/
def Group.written (realDomain : List Char → List Char) (g : Group) : Group :=
  { g with member := g.member.map (spellMember realDomain) }

theorem groupWrite_completes (opens : opensData site = true)
    (resolve : ∀ member ∈ site.group.member, resolves site member = true) :
    (∀ line ∈ (site.group.written site.realDomain).member, Storable line) ∧
      ∃ files, files site.group.datafile = some (dataText site.group.nMembers
          site.group.maxMembers site.group.quota (site.group.written site.realDomain).member) ∧
        groupWrite site =
          (true, { site with files := files, group := site.group.written site.realDomain }) := by
  rw [opensData, Bool.and_eq_true, decide_eq_true_eq] at opens
  rcases writeMembers_resolve resolve (site.files.set site.group.datafile (some [])) with
    ⟨storable, after, written⟩
  let text := dataText site.group.nMembers site.group.maxMembers site.group.quota
    (site.group.written site.realDomain).member
  refine ⟨storable, after.set site.group.datafile (some text), if_pos rfl, ?_⟩
  simp only [groupWrite, opens.1, opens.2, written, ne_eq, not_true_eq_false, Bool.not_true,
    Bool.false_eq_true, if_false]
  rfl

end Write

/-! ## Loading -/

section Load

variable {user domain : List Char} {site after : Site} {g : Group}

/-- The owner's names load the group. -/
def Loads (site : Site) (user domain : List Char) (g : Group) : Prop :=
  groupLoad 1 site user domain = some (.ok (some g))

/-- `group_load` finds the data file of the owner. -/
theorem loads_iff : Loads site user domain g ↔
    ∃ dir text, site.getpw user domain = some dir ∧ site.files (ownerFile dir) = some text ∧
      site.readable (ownerFile dir) = true ∧
      readData (address (lowerit user) (site.realDomain domain)) (ownerFile dir) text =
        .ok (some g) := by
  rw [Loads, groupLoad]
  constructor
  · intro loaded
    split at loaded
    · cases loaded
    · rename_i dir found
      split at loaded
      · rename_i text stored
        split at loaded
        · cases loaded
        · rename_i readable
          rw [Bool.not_eq_true, Bool.not_eq_false'] at readable
          exact ⟨dir, text, found, stored, readable, Option.some.inj loaded⟩
      · split at loaded
        · cases loaded
        · split at loaded
          · cases loaded
          · split at loaded
            · cases loaded
            · cases loaded
  · intro parts
    rcases parts with ⟨dir, text, found, stored, readable, read⟩
    simp only [found, stored, readable, read, Bool.not_true, Bool.false_eq_true, if_false]

theorem addLines_shape {chunks : List (List Char)} {initial : Group}
    (added : addLines chunks initial = some g) :
    g.owner = initial.owner ∧ g.datafile = initial.datafile ∧
      (initial.nMembers < intMax → g.nMembers < intMax) := by
  induction chunks generalizing initial with
  | nil =>
      cases added
      exact ⟨rfl, rfl, id⟩
  | cons chunk chunks induction =>
      rw [addLines] at added
      split at added
      · cases added
      · rcases Option.bind_eq_some_iff.mp added with ⟨middle, one, rest⟩
        rcases induction rest with ⟨owner, datafile, counted⟩
        rw [groupAddMember] at one
        split at one
        · cases one
        · split at one
          · cases one
          · rename_i room
            cases one
            refine ⟨owner, datafile, ?_⟩
            intro _
            apply counted
            simp only [Group.nMembers, List.length_append, List.length_singleton] at room ⊢
            unfold intMax at room ⊢
            omega

theorem readData_shape {owner datafile text : List Char}
    (read : readData owner datafile text = .ok (some g)) :
    g.owner = owner ∧ g.datafile = datafile ∧ g.nMembers < intMax := by
  rw [readData] at read
  split at read
  · cases read
  · rename_i count _ _ _ _
    dsimp only at read
    split at read
    · cases read
    split at read
    · cases read
    · rename_i accepted
      rcases addLines_shape (Except.ok.inj read) with ⟨sameOwner, sameFile, counted⟩
      refine ⟨sameOwner, sameFile, counted ?_⟩
      have upper : Decimal.atoi count < 2 ^ 31 := Int.bmod_lt (by decide)
      simp only [Group.nMembers, List.length_map, List.length_take]
      unfold intMax at accepted ⊢
      omega

/-- The same lookups in another state. -/
structure SameLookups (before after : Site) (user domain : List Char) : Prop where
  realDomain : after.realDomain = before.realDomain
  getpw : after.getpw user domain = before.getpw user domain
  readable : after.readable = before.readable

theorem Loads.frame (loads : Loads site user domain g) (same : SameLookups site after user domain)
    (content : after.files g.datafile = site.files g.datafile) : Loads after user domain g := by
  rcases loads_iff.mp loads with ⟨dir, text, found, stored, readable, read⟩
  rw [(readData_shape read).2.1, stored] at content
  apply loads_iff.mpr
  refine ⟨dir, text, same.getpw.trans found, content, ?_, ?_⟩
  · rw [same.readable]
    exact readable
  · rw [same.realDomain]
    exact read

/-- The group that has been written is the one that is loaded. -/
theorem Loads.overwrite (loads : Loads site user domain g)
    (same : SameLookups site after user domain) {next : Group} (owner : next.owner = g.owner)
    (datafile : next.datafile = g.datafile) (storable : ∀ line ∈ next.member, Storable line)
    {count : Int} (counted : next.nMembers ≤ count) (small : count < intMax)
    (content : after.files g.datafile =
      some (dataText count next.maxMembers next.quota next.member)) :
    Loads after user domain next := by
  rcases loads_iff.mp loads with ⟨dir, text, found, stored, readable, read⟩
  rcases readData_shape read with ⟨sameOwner, sameFile, _⟩
  rw [sameFile] at content datafile
  rw [sameOwner] at owner
  apply loads_iff.mpr
  refine ⟨dir, _, same.getpw.trans found, content, ?_, ?_⟩
  · rw [same.readable]
    exact readable
  · rw [same.realDomain, ← owner, ← datafile]
    exact readData_dataText storable counted small _ _ _ _

end Load

/-! ## Events -/

/-- What happens to a group: the three operations, new settings in memory, and accounts
that are deleted. -/
inductive Event
  | add (user domain : List Char)
  | remove (user domain : List Char)
  | write
  | settings (maxMembers quota : BitVec 32)
  | delete (user domain : List Char)
  deriving DecidableEq

/-- `vdeluser` of anybody but the owner of the group: the record and the directory go. -/
def deleteUser (ownerUser ownerDomain : List Char) (site : Site) (user domain : List Char) :
    Option Site :=
  match site.getpw user domain with
  | none => none
  | some dir =>
      if lowerit user = lowerit ownerUser ∧ site.realDomain domain = site.realDomain ownerDomain
      then none
      else if (dir ++ ['/']).isPrefixOf site.group.datafile then none
      else
        some { site with
          accounts := site.accounts.delete (lowerit user) (site.realDomain domain)
          files := fun path => if (dir ++ ['/']).isPrefixOf path then none else site.files path }

/-- The state after an event, and what the operation reports. -/
def perform (depth : Nat) (ownerUser ownerDomain : List Char) (site : Site) :
    Event → Option (Bool × Site)
  | .add user domain => groupAdd depth site user domain
  | .remove user domain => groupRemove depth site user domain
  | .write => some (groupWrite site)
  | .settings maxMembers quota =>
      some (true, { site with
        group := { site.group with maxMembers := maxMembers, quota := quota } })
  | .delete user domain =>
      (deleteUser ownerUser ownerDomain site user domain).map fun site => (true, site)

/-- The file of the member that is removed is not the data file under a path cut off. -/
def unlinksOther (site : Site) (user domain : List Char) : Bool :=
  match site.getpw user domain with
  | none => true
  | some dir => memberFile dir ≠ site.group.datafile

/-- A list that the operation goes on to write can be written. -/
def completes (depth : Nat) (site : Site) : Event → Bool
  | .add user domain =>
      match groupAdded depth site user domain with
      | some (some g) => opensData site && g.member.all (resolves site)
      | _ => true
  | .remove user domain =>
      match mayRemove depth site user domain with
      | some true =>
          unlinksOther site (lowerit user) (site.realDomain domain) &&
            match withoutMember site.group.member (address (lowerit (lowerit user))
              (site.realDomain (site.realDomain domain))) with
            | some members => opensData site && members.all (resolves site)
            | none => true
      | _ => true
  | .write => !opensData site || site.group.member.all (resolves site)
  | .settings _ _ => true
  | .delete _ _ => true

/-! ## The ledger -/

/-- The group as it should be, in memory and in its file. -/
structure Ledger where
  memory : Group
  stored : Group

/-- An operation that succeeds stores its list, and one that fails does nothing. -/
def Ledger.follow (realDomain : List Char → List Char) (ledger : Ledger) :
    Event × Bool → Ledger
  | (_, false) => ledger
  | (.add user domain, true) =>
      let members := ledger.memory.member ++ [address (lowerit user) (realDomain domain)]
      let g := { ledger.memory with member := members }.written realDomain
      ⟨g, g⟩
  | (.remove user domain, true) =>
      let removed := address (lowerit (lowerit user)) (realDomain (realDomain domain))
      let members := ledger.memory.member.eraseP (sameAddress · removed)
      let g := { ledger.memory with member := members }.written realDomain
      ⟨g, g⟩
  | (.write, true) =>
      let g := ledger.memory.written realDomain
      ⟨g, g⟩
  | (.settings maxMembers quota, true) =>
      { ledger with
        memory := { ledger.memory with maxMembers := maxMembers, quota := quota } }
  | (.delete _ _, true) => ledger

/-- The state is the one that the ledger says. -/
structure Agrees (user domain : List Char) (ledger : Ledger) (site : Site) : Prop where
  memory : site.group = ledger.memory
  stored : Loads site user domain ledger.stored

/-- The group in memory belongs to the file. -/
structure Tied (user domain : List Char) (ledger : Ledger) (site : Site) : Prop
    extends Agrees user domain ledger site where
  owner : ledger.memory.owner = ledger.stored.owner
  datafile : ledger.memory.datafile = ledger.stored.datafile
  counted : ledger.memory.nMembers < intMax

section Steps

variable {user domain : List Char} {ledger : Ledger} {site : Site}

/-- Nothing happens to the data file. -/
theorem Tied.refuse (tied : Tied user domain ledger site) {files : Files}
    (content : files site.group.datafile = site.files site.group.datafile) :
    Tied user domain ledger { site with files := files } := by
  have same : site.group.datafile = ledger.stored.datafile := by
    rw [tied.memory]
    exact tied.datafile
  rw [same] at content
  exact { tied with stored := tied.stored.frame ⟨rfl, rfl, rfl⟩ content }

/-- A list that can be written is written. -/
theorem Tied.write (tied : Tied user domain ledger site) (files : Files)
    {members : List (List Char)} (counted : members.length < intMax)
    (opens : opensData site = true) (resolve : ∀ member ∈ members, resolves site member = true) :
    ∃ after, groupWrite { site with files := files, group := { site.group with member := members } } =
        (true, after) ∧
      Tied user domain
        ⟨{ site.group with member := members }.written site.realDomain,
          { site.group with member := members }.written site.realDomain⟩ after := by
  let middle : Site :=
    { site with files := files, group := { site.group with member := members } }
  have completed := groupWrite_completes (show opensData middle = true from opens)
    (show ∀ member ∈ middle.group.member, resolves middle member = true from resolve)
  rcases completed with ⟨storable, stored, content, written⟩
  have owner : site.group.owner = ledger.stored.owner := by
    rw [tied.memory]
    exact tied.owner
  have datafile : site.group.datafile = ledger.stored.datafile := by
    rw [tied.memory]
    exact tied.datafile
  have small : (middle.group.written site.realDomain).nMembers < intMax := by
    rw [Group.nMembers, Group.written, List.length_map]
    exact counted
  have length : (middle.group.written site.realDomain).nMembers = middle.group.nMembers := by
    rw [Group.nMembers, Group.written, List.length_map, Group.nMembers]
  rw [length] at small
  let after : Site :=
    { middle with files := stored, group := middle.group.written site.realDomain }
  have content : after.files ledger.stored.datafile = _ := datafile ▸ content
  let g := middle.group.written site.realDomain
  have same : SameLookups site after user domain := ⟨rfl, rfl, rfl⟩
  have loads : Loads after user domain g :=
    tied.stored.overwrite same (show g.owner = _ from owner) (show g.datafile = _ from datafile)
      storable (le_of_eq length) small content
  exact ⟨after, written, ⟨rfl, loads⟩, rfl, rfl, length ▸ small⟩

/-! ## One step of each kind -/

end Steps

/-! ## Runs -/

section Runs

variable {depth : Nat} {user domain : List Char}

/-- What the reports of a run say about the group. -/
def Ledger.after (realDomain : List Char → List Char) (g : Group)
    (trace : List (Event × Bool)) : Ledger :=
  trace.foldl (Ledger.follow realDomain) ⟨g, g⟩

/-- The events that happen, with the reports. -/
def Step (depth : Nat) (user domain : List Char) (before : Site) (label : Event × Bool)
    (after : Site) : Prop :=
  perform depth user domain before label.1 = some (label.2, after)

end Runs

/-! ## A group of two -/

section Sample

/-- The steps as a function, under a guard. -/
def next (guard : Site → Event → Bool) (depth : Nat) (user domain : List Char) (site : Site)
    (label : Event × Bool) : Option Site :=
  match perform depth user domain site label.1 with
  | none => none
  | some (reported, after) =>
      if reported = label.2 ∧ guard site label.1 = true then some after else none

def owner : List Char := "owner".toList

def ann : List Char := "ann".toList

def bob : List Char := "bob".toList

def cid : List Char := "cid".toList

def org : List Char := "x.org".toList

def accounts : Accounts where
  dir := fun user domain =>
    if domain = org ∧ user ∈ [owner, ann, bob, cid] then some ("/home/".toList ++ user) else none
  named := by
    intro user domain path found
    split at found
    · rename_i known
      rcases known with ⟨rfl, known⟩
      have all : ∀ user ∈ [owner, ann, bob, cid],
          isUsernameValid user = true ∧ user.length ≤ maxPwName := by decide
      exact ⟨(all user known).1, (all user known).2, by decide, by decide⟩
    · cases found

/-- One member joins, one leaves and loses the account, and the limit is raised. -/
def changes : List (Event × Bool) :=
  [(.add cid org, true), (.remove ann org, true), (.delete ann org, true),
    (.settings 9#32 0#32, true), (.write, true)]

end Sample

end Vpopmail.Groups

import Mathlib.Data.List.Nodup
import Mathlib.Data.List.Perm.Basic
import Mathlib.Data.Set.Function
import Vpopmail.Vcdb.Passwd
import Vpopmail.Vusaged.VdbRecords

/-! # The round trip of a snapshot

A load that starts with nothing keeps an index of its domains in the cache. It builds the
daemon that was saved exactly when the records fit their fields and the names of the
domains tell them apart.
-/

namespace Vpopmail.Vusaged.Vdb

open Records Text

/-! ## Small facts about the operations -/

theorem domainKey_of_short {name : List Char} (short : name.length < domainMaxDomain) :
    domainKey name = '@' :: name.map lowerChar := by
  rw [domainKey, List.take_of_length_le (by rw [List.length_cons]; omega), List.map_cons]
  rfl

theorem head?_domainKey (name : List Char) : (domainKey name).head? = some '@' := rfl

theorem eq_at_of_lowerChar {char : Char} (folded : lowerChar char = '@') : char = '@' := by
  rw [lowerChar] at folded
  split at folded
  · rename_i upper
    have code := congrArg Char.toNat folded
    rw [Char.ofNat, dif_pos (Or.inl (by omega))] at code
    change char.toNat + 32 = 64 at code
    omega
  · exact folded

theorem head?_address {user domain : List Char} (nonempty : user ≠ []) (free : Free '@' user) :
    ((address user domain).map lowerChar).head? ≠ some '@' := by
  cases user with
  | nil => exact absurd rfl nonempty
  | cons head tail =>
      intro folded
      have same := eq_at_of_lowerChar (Option.some.inj folded)
      exact (free_cons.mp free).1 same.symm

namespace Daemon

variable {daemon : Daemon}

def names (daemon : Daemon) : List CString := daemon.domains.map Domain.domain

theorem lookup_cacheAdd (key sought : List Char) (pointer : Pointer) :
    (daemon.cacheAdd key pointer).cache.lookup sought =
      if sought = key.map lowerChar then some pointer else daemon.cache.lookup sought := by
  rw [cacheAdd, List.lookup_cons]
  by_cases same : sought = key.map lowerChar
  · rw [if_pos same, beq_iff_eq.mpr same]
  · rw [if_neg same, beq_eq_false_iff_ne.mpr same]

theorem names_setTotals (place : Nat) (usage count : Storage) :
    (daemon.setTotals place usage count).names = daemon.names := by
  rw [names, setTotals, names]
  apply List.ext_getElem?
  intro index
  rw [List.getElem?_map, List.getElem?_map, List.getElem?_modify]
  cases daemon.domains[index]? with
  | none => rfl
  | some d =>
      by_cases here : place = index
      · simp [here]
      · simp [here]

/-- A domain is either known, or it comes new to the end of the list. -/
theorem domainLoad_cases {name : CString} {place : Nat} {after : Daemon}
    (done : daemon.domainLoad name = some (place, after)) :
    (after = daemon ∧ daemon.cache.lookup (domainKey name.val) = some (.domain place)) ∨
      (daemon.cache.lookup (domainKey name.val) = none ∧ place = daemon.domains.length ∧
        after = ({ daemon with domains := daemon.domains ++ [⟨name, 0, 0⟩] } : Daemon).cacheAdd
          (('@' :: name.val).take domainMaxDomain) (.domain daemon.domains.length)) := by
  rw [domainLoad] at done
  split at done
  · rename_i found looked
    cases done
    exact .inl ⟨rfl, looked⟩
  · cases done
  · rename_i missing
    cases done
    exact .inr ⟨missing, rfl, rfl⟩

end Daemon

/-! ## What every load preserves -/

/-- The cache leads from the key of every domain to that domain, and the key of a user does
not look like that of a domain. -/
structure Indexed (daemon : Daemon) : Prop where
  found : ∀ (place : Nat) (name : CString), daemon.names[place]? = some name →
    daemon.cache.lookup (domainKey name.val) = some (.domain place)
  known : ∀ key place, daemon.cache.lookup key = some (.domain place) →
    ∃ name, daemon.names[place]? = some name ∧ domainKey name.val = key
  users : ∀ key place, daemon.cache.lookup key = some (.user place) → key.head? ≠ some '@'

/-- What a load leaves for each of its users. -/
structure Loaded (names : List CString) (u : User) : Prop where
  userstore : u.userstore.isSome = true
  address : ∃ name, names[u.domain]? = some name ∧
    (address u.user.val name.val).length < addressSize

structure Sound (daemon : Daemon) : Prop where
  indexed : Indexed daemon
  loaded : ∀ u ∈ daemon.users, Loaded daemon.names u

theorem Loaded.append {names : List CString} {u : User} (loaded : Loaded names u)
    (more : List CString) : Loaded (names ++ more) u := by
  rcases loaded.address with ⟨name, placed, short⟩
  have inside := (List.getElem?_eq_some_iff.mp placed).1
  exact ⟨loaded.userstore, name, by rw [List.getElem?_append_left inside, placed], short⟩

theorem sound_empty : Sound Daemon.empty :=
  ⟨⟨nofun, nofun, nofun⟩, nofun⟩

theorem Sound.setTotals {daemon : Daemon} (sound : Sound daemon) (place : Nat)
    (usage count : Storage) : Sound (daemon.setTotals place usage count) := by
  have names := daemon.names_setTotals place usage count
  rcases sound with ⟨⟨found, known, users⟩, loaded⟩
  refine ⟨⟨?_, ?_, users⟩, ?_⟩
  · rw [names]
    exact found
  · rw [names]
    exact known
  · rw [names]
    exact loaded

variable {daemon after : Daemon} {name : CString} {place : Nat}

/-- A name that is looked up comes out with a place of the list. -/
theorem Sound.domainLoad (sound : Sound daemon)
    (done : daemon.domainLoad name = some (place, after)) :
    Sound after ∧ after.users = daemon.users ∧
      ∃ known, after.names[place]? = some known ∧
        domainKey known.val = domainKey name.val := by
  rcases daemon.domainLoad_cases done with ⟨rfl, found⟩ | ⟨missing, rfl, rfl⟩
  · exact ⟨sound, rfl, sound.indexed.known _ _ found⟩
  · have names : (({ daemon with domains := daemon.domains ++ [⟨name, 0, 0⟩] } : Daemon).cacheAdd
        (('@' :: name.val).take domainMaxDomain) (.domain daemon.domains.length)).names =
          daemon.names ++ [name] := List.map_append
    have length : daemon.names.length = daemon.domains.length := List.length_map _
    have last : (daemon.names ++ [name])[daemon.domains.length]? = some name := by
      rw [← length, List.getElem?_concat_length]
    refine ⟨⟨⟨?_, ?_, ?_⟩, ?_⟩, rfl, name, by rw [names, last], rfl⟩
    · intro index other placed
      rw [names] at placed
      rw [Daemon.lookup_cacheAdd]
      by_cases inside : index < daemon.names.length
      · rw [List.getElem?_append_left inside] at placed
        have kept := sound.indexed.found index other placed
        have different : domainKey other.val ≠ domainKey name.val := by
          intro same
          rw [same, missing] at kept
          cases kept
        exact (if_neg different).trans kept
      · have reached := (List.getElem?_eq_some_iff.mp placed).1
        rw [List.length_append, List.length_singleton] at reached
        have here : index = daemon.domains.length := by omega
        subst here
        rw [last] at placed
        cases placed
        exact if_pos rfl
    · intro key index found
      rw [names]
      rw [Daemon.lookup_cacheAdd] at found
      split at found
      · rename_i same
        cases found
        exact ⟨name, last, same.symm⟩
      · rcases sound.indexed.known key index found with ⟨other, placed, same⟩
        have inside := (List.getElem?_eq_some_iff.mp placed).1
        exact ⟨other, by rw [List.getElem?_append_left inside, placed], same⟩
    · intro key index found
      rw [Daemon.lookup_cacheAdd] at found
      split at found
      · cases found
      · exact sound.indexed.users key index found
    · intro u member
      rw [names]
      exact (sound.loaded u member).append [name]

theorem Sound.userUserlistAdd (sound : Sound daemon) {u : User}
    (named : u.user.val ≠ [] ∧ Free '@' u.user.val) (stored : u.userstore.isSome = true)
    (done : daemon.userUserlistAdd u = some after) :
    Sound after ∧ after.domains = daemon.domains ∧ after.users = daemon.users ++ [u] := by
  rcases Option.bind_eq_some_iff.mp done with ⟨d, placed, added⟩
  dsimp only at added
  split at added
  · cases added
  · rename_i short
    cases added
    have foreign := @head?_address _ d.domain.val named.1 named.2
    refine ⟨⟨⟨?_, ?_, ?_⟩, ?_⟩, rfl, rfl⟩
    · intro index other there
      rw [Daemon.lookup_cacheAdd, if_neg]
      · exact sound.indexed.found index other there
      · intro same
        rw [← same] at foreign
        exact foreign rfl
    · intro key index found
      rw [Daemon.lookup_cacheAdd] at found
      split at found
      · cases found
      · exact sound.indexed.known key index found
    · intro key index found
      rw [Daemon.lookup_cacheAdd] at found
      split at found
      · rename_i same
        rw [same]
        exact foreign
      · exact sound.indexed.users key index found
    · intro other member
      rcases List.mem_append.mp member with before | new
      · exact sound.loaded other before
      · rw [List.mem_singleton.mp new]
        refine ⟨stored, d.domain, ?_, Nat.not_le.mp short⟩
        exact (List.getElem?_map ..).trans (congrArg _ placed)

/-- One record of a domain. -/
theorem Sound.restoreDomain (sound : Sound daemon) {d : Domain}
    (done : restoreDomain d daemon = some after) : Sound after := by
  rcases Option.map_eq_some_iff.mp done with ⟨⟨place, loaded⟩, loading, same⟩
  rw [← same]
  exact (sound.domainLoad loading).1.setTotals place d.usage d.count

/-- One record of a user. -/
theorem Sound.restoreUser (sound : Sound daemon) {domains : List Domain} {u : User}
    (named : u.user.val ≠ [] ∧ Free '@' u.user.val)
    (done : restoreUser domains u daemon = some after) : Sound after := by
  rcases Option.bind_eq_some_iff.mp done with ⟨d, placed, loading⟩
  rcases Option.bind_eq_some_iff.mp loading with ⟨⟨place, loaded⟩, found, added⟩
  dsimp only at added
  rcases sound.domainLoad found with ⟨next, _, _⟩
  let saved : User := { u with domain := place, userstore := some (savedStore u) }
  have name : saved.user.val ≠ [] ∧ Free '@' saved.user.val := named
  exact (next.userUserlistAdd name rfl added).1

theorem sound_restore (valid : Valid daemon) (done : restore daemon = some after) :
    Sound after := by
  rcases Option.bind_eq_some_iff.mp done with ⟨loaded, domains, users⟩
  have first : Sound loaded := applyEach_preserves
    (fun d _ state next sound applied => sound.restoreDomain applied) sound_empty domains
  apply applyEach_preserves _ first users
  intro u member state next sound applied
  exact sound.restoreUser (valid.named u (List.mem_reverse.mp member)) applied

/-- No two domains of a load have the same key. -/
theorem Indexed.distinct (indexed : Indexed daemon) :
    (daemon.names.map fun name => domainKey name.val).Nodup := by
  rw [List.nodup_iff_getElem?_ne_getElem?]
  intro first second before inside same
  rw [List.getElem?_map, List.getElem?_map] at same
  rw [List.length_map] at inside
  have placed := List.getElem?_eq_getElem inside
  have alsoPlaced := List.getElem?_eq_getElem (Nat.lt_trans before inside)
  rw [placed, alsoPlaced] at same
  have keys : domainKey daemon.names[first].val = domainKey daemon.names[second].val :=
    Option.some.inj same
  have found := indexed.found second _ placed
  rw [← keys, indexed.found first _ alsoPlaced] at found
  cases found
  exact Nat.lt_irrefl _ before

/-! ## What a load builds -/

/-- A domain whose key is new. -/
theorem Sound.restoreDomain_new (sound : Sound daemon) {d : Domain}
    (fresh : ∀ known ∈ daemon.names, domainKey known.val ≠ domainKey d.domain.val) :
    ∃ next, Vdb.restoreDomain d daemon = some next ∧ next.domains = daemon.domains ++ [d] ∧
      next.users = daemon.users := by
  have missing : daemon.cache.lookup (domainKey d.domain.val) = none := by
    cases looked : daemon.cache.lookup (domainKey d.domain.val) with
    | none => rfl
    | some pointer =>
        cases pointer with
        | domain place =>
            rcases sound.indexed.known _ _ looked with ⟨known, placed, same⟩
            exact absurd same (fresh known (List.mem_of_getElem? placed))
        | user place => exact absurd (head?_domainKey _) (sound.indexed.users _ _ looked)
  simp only [Vdb.restoreDomain, Daemon.domainLoad, missing, Option.map_some]
  refine ⟨_, rfl, ?_, rfl⟩
  simp only [Daemon.setTotals, Daemon.cacheAdd]
  rw [List.modify_eq_take_cons_drop (by rw [List.length_append, List.length_singleton]; omega)]
  simp

theorem Sound.restoreDomains (sound : Sound daemon) {domains : List Domain}
    (distinct : ((daemon.domains ++ domains).map fun d => domainKey d.domain.val).Nodup) :
    ∃ next, applyEach Vdb.restoreDomain domains daemon = some next ∧ Sound next ∧
      next.domains = daemon.domains ++ domains ∧ next.users = daemon.users := by
  induction domains generalizing daemon with
  | nil => exact ⟨daemon, rfl, sound, (List.append_nil _).symm, rfl⟩
  | cons d domains induction =>
      have fresh : ∀ known ∈ daemon.names, domainKey known.val ≠ domainKey d.domain.val := by
        intro known member same
        rcases List.mem_map.mp member with ⟨other, among, rfl⟩
        rw [List.map_append] at distinct
        exact (List.nodup_append.mp distinct).2.2 _ (List.mem_map_of_mem among) _
          (List.mem_map_of_mem List.mem_cons_self) same
      rcases sound.restoreDomain_new fresh with ⟨next, applied, domainsNow, usersNow⟩
      have order : daemon.domains ++ d :: domains = next.domains ++ domains := by
        rw [domainsNow, List.append_assoc, List.singleton_append]
      rw [order] at distinct
      rcases induction (sound.restoreDomain applied) distinct with
        ⟨last, others, soundLast, domainsLast, usersLast⟩
      exact ⟨last, by rw [applyEach, applied, Option.bind_some, others], soundLast,
        domainsLast.trans order.symm, usersLast.trans usersNow⟩

/-- A user as the load has it, when the domain at `place` has come to `relocate place`. -/
def relocated (relocate : Nat → Nat) (u : User) : User :=
  { u with domain := relocate u.domain, userstore := some (savedStore u) }

theorem Sound.restoreUsers (sound : Sound daemon) {domains : List Domain} {users : List User}
    {relocate : Nat → Nat}
    (kept : ∀ place d, domains[place]? = some d → daemon.domains[relocate place]? = some d)
    (named : ∀ u ∈ users, u.user.val ≠ [] ∧ Free '@' u.user.val)
    (short : ∀ u ∈ users, ∃ d, domains[u.domain]? = some d ∧
      (address u.user.val d.domain.val).length < addressSize) :
    ∃ next, applyEach (Vdb.restoreUser domains) users daemon = some next ∧
      next.domains = daemon.domains ∧
      next.users = daemon.users ++ users.map (relocated relocate) := by
  induction users generalizing daemon with
  | nil => exact ⟨daemon, rfl, rfl, (List.append_nil _).symm⟩
  | cons u users induction =>
      rcases short u List.mem_cons_self with ⟨d, placed, fits⟩
      have there := kept u.domain d placed
      have named' := named u List.mem_cons_self
      have loading : daemon.domainLoad d.domain = some (relocate u.domain, daemon) := by
        have known : daemon.names[relocate u.domain]? = some d.domain :=
          (List.getElem?_map ..).trans (congrArg _ there)
        rw [Daemon.domainLoad, sound.indexed.found _ _ known]
      let next : Daemon := ({ daemon with users := daemon.users ++ [relocated relocate u] } :
        Daemon).cacheAdd (address u.user.val d.domain.val) (.user daemon.users.length)
      have added : daemon.userUserlistAdd (relocated relocate u) = some next := by
        rw [Daemon.userUserlistAdd, relocated]
        dsimp only
        rw [there, Option.bind_some, if_neg (Nat.not_le.mpr fits)]
        rfl
      have applied : Vdb.restoreUser domains u daemon = some next := by
        rw [Vdb.restoreUser, placed, Option.bind_some, loading, Option.bind_some]
        exact added
      rcases induction (sound.restoreUser named' applied) kept
          (fun other member => named other (List.mem_cons_of_mem u member))
          (fun other member => short other (List.mem_cons_of_mem u member)) with
        ⟨last, others, domainsLast, usersLast⟩
      refine ⟨last, by rw [applyEach, applied, Option.bind_some, others], domainsLast, ?_⟩
      rw [usersLast, List.map_cons]
      exact (List.append_assoc ..).trans rfl

/-! ## The round trip -/

/-- The same records up to the order of the lists, with every user at its own domain. -/
structure Reproduces (before after : Daemon) : Prop where
  domains : after.domains.Perm before.domains
  users : ∃ relocate : Nat → Nat,
    (∀ place < before.domains.length, after.domains[relocate place]? = before.domains[place]?) ∧
    (∀ first < before.domains.length, ∀ second < before.domains.length,
      relocate first = relocate second → first = second) ∧
    after.users.Perm (before.users.map fun u => { u with domain := relocate u.domain })

/-- The save succeeds, and a load of its file brings the daemon back. -/
def RoundTrips (daemon : Daemon) : Prop :=
  ∃ file after, vdbSave daemon = some file ∧ vdbLoad file = some after ∧
    Reproduces daemon after

/-- What a snapshot asks of the daemon. -/
structure Fits (daemon : Daemon) : Prop where
  domains : ∀ d ∈ daemon.domains, d.domain.val.length < domainMaxDomain
  distinct : (daemon.domains.map fun d => d.domain.val.map lowerChar).Nodup
  users : ∀ u ∈ daemon.users, UserFits u
  addresses : ∀ u ∈ daemon.users, ∀ d, daemon.domains[u.domain]? = some d →
    (address u.user.val d.domain.val).length < addressSize
  userstores : ∀ u ∈ daemon.users, u.userstore.isSome = true

theorem nodup_domainKey (short : ∀ d ∈ daemon.domains, d.domain.val.length < domainMaxDomain) :
    (daemon.domains.map fun d => domainKey d.domain.val).Nodup ↔
      (daemon.domains.map fun d => d.domain.val.map lowerChar).Nodup := by
  have keys : (daemon.domains.map fun d => domainKey d.domain.val) =
      (daemon.domains.map fun d => d.domain.val.map lowerChar).map ('@' :: ·) := by
    rw [List.map_map]
    exact List.map_congr_left fun d member => domainKey_of_short (short d member)
  rw [keys]
  exact List.nodup_map_iff (List.cons_injective)

theorem savedStore_of_present (valid : Valid daemon) {u : User} (member : u ∈ daemon.users)
    {store : Userstore} (present : u.userstore = some store) : savedStore u = store := by
  rw [savedStore, present, ← (valid.stored u member store present).1]
  rfl

theorem roundTrips_of_fits (valid : Valid daemon) (fits : Fits daemon) : RoundTrips daemon := by
  rcases (exists_vdbSave valid).mpr ⟨fits.domains, fits.users⟩ with ⟨file, saved⟩
  have distinct : ((Daemon.empty.domains ++ daemon.domains.reverse).map
      fun d => domainKey d.domain.val).Nodup := by
    rw [show Daemon.empty.domains ++ daemon.domains.reverse = daemon.domains.reverse from rfl,
      List.map_reverse, List.nodup_reverse]
    exact (nodup_domainKey fits.domains).mpr fits.distinct
  rcases sound_empty.restoreDomains distinct with ⟨loaded, domains, sound, domainsNow, usersNow⟩
  change loaded.domains = daemon.domains.reverse at domainsNow
  change loaded.users = [] at usersNow
  let relocate (place : Nat) : Nat := daemon.domains.length - 1 - place
  have moved : ∀ place < daemon.domains.length,
      loaded.domains[relocate place]? = daemon.domains[place]? := by
    intro place inside
    have back : daemon.domains.length - 1 - (daemon.domains.length - 1 - place) = place := by omega
    change loaded.domains[daemon.domains.length - 1 - place]? = daemon.domains[place]?
    rw [domainsNow, List.getElem?_reverse (by omega), back]
  have kept : ∀ place d, daemon.domains[place]? = some d →
      loaded.domains[relocate place]? = some d :=
    fun place d placed => (moved place (List.getElem?_eq_some_iff.mp placed).1).trans placed
  have named : ∀ u ∈ daemon.users.reverse, u.user.val ≠ [] ∧ Free '@' u.user.val :=
    fun u member => valid.named u (List.mem_reverse.mp member)
  have short : ∀ u ∈ daemon.users.reverse, ∃ d, daemon.domains[u.domain]? = some d ∧
      (address u.user.val d.domain.val).length < addressSize := by
    intro u member
    have among := List.mem_reverse.mp member
    have placed := List.getElem?_eq_getElem (valid.placed u among)
    exact ⟨_, placed, fits.addresses u among _ placed⟩
  rcases sound.restoreUsers kept named short with ⟨after, users, domainsAfter, usersAfter⟩
  have restored : restore daemon = some after := by
    rw [restore, domains, Option.bind_some, users]
  refine ⟨file, after, saved, (vdbLoad_vdbSave valid saved).trans restored, ?_, relocate,
    ?_, ?_, ?_⟩
  · rw [domainsAfter, domainsNow]
    exact List.reverse_perm _
  · intro place inside
    rw [domainsAfter]
    exact moved place inside
  · intro first firstInside second secondInside same
    change daemon.domains.length - 1 - first = daemon.domains.length - 1 - second at same
    omega
  · have same : daemon.users.map (relocated relocate) =
        daemon.users.map fun u => { u with domain := relocate u.domain } := by
      apply List.map_congr_left
      intro u member
      rcases Option.isSome_iff_exists.mp (fits.userstores u member) with ⟨store, present⟩
      rw [relocated, savedStore_of_present valid member present, ← present]
    rw [usersAfter, usersNow, List.nil_append, List.map_reverse, same]
    exact List.reverse_perm _

theorem fits_of_roundTrips (valid : Valid daemon) (done : RoundTrips daemon) : Fits daemon := by
  rcases done with ⟨file, after, saved, loaded, sameDomains, relocate, moved, _, sameUsers⟩
  rcases (exists_vdbSave valid).mp ⟨file, saved⟩ with ⟨short, users⟩
  rw [vdbLoad_vdbSave valid saved] at loaded
  have sound := sound_restore valid loaded
  have kept : ∀ u ∈ daemon.users,
      Loaded after.names { u with domain := relocate u.domain } := by
    intro u member
    exact sound.loaded _ (sameUsers.mem_iff.mpr (List.mem_map_of_mem member))
  refine ⟨short, ?_, users, ?_, fun u member => (kept u member).userstore⟩
  · rw [← nodup_domainKey short]
    have distinct := sound.indexed.distinct
    rw [Daemon.names, List.map_map] at distinct
    exact ((sameDomains.map _).nodup_iff).mp distinct
  · intro u member d placed
    rcases (kept u member).address with ⟨name, there, fits⟩
    have reached := (moved u.domain (valid.placed u member)).trans placed
    have same : after.names[relocate u.domain]? = some d.domain :=
      (List.getElem?_map ..).trans (congrArg _ reached)
    rw [Option.some.inj (there.symm.trans same)] at fits
    exact fits

/-- A snapshot brings the daemon back exactly when every text is shorter than its field, the
names of the domains differ when their letters are folded, and every user has an entry and
a userstore. -/
theorem roundTrips_iff (valid : Valid daemon) : RoundTrips daemon ↔ Fits daemon :=
  ⟨fits_of_roundTrips valid, roundTrips_of_fits valid⟩

/-! ## One user -/

/-- A daemon with one user, polled once, whose entry has a given comment. -/
def bobDaemon (gecos : CString) : Daemon :=
  let home : CString := ⟨['/', 'b', 'o', 'b', '/', 'M', 'a', 'i', 'l', 'd', 'i', 'r'], by decide⟩
  let cur : Directory := ⟨⟨['/', 'c', 'u', 'r'], by decide⟩, 7, emptyStat, 10, 1⟩
  ⟨[⟨⟨['B', '.', 'o', 'r', 'g'], by decide⟩, 10, 1⟩],
    [⟨⟨['b', 'o', 'b'], by decide⟩, 0, home,
      some ⟨⟨['b', 'o', 'b'], by decide⟩, ⟨['$', '1'], by decide⟩, 1, 1, 0, gecos,
        ⟨['/', 'b', 'o', 'b'], by decide⟩, ⟨['N', 'O'], by decide⟩, ⟨['p', 'w'], by decide⟩⟩,
      some ⟨home, emptyStat, 7, 1, 0, 10, 1, [cur]⟩⟩], []⟩

theorem valid_bobDaemon (gecos : CString) : Valid (bobDaemon gecos) := by
  refine ⟨Nat.one_lt_two_pow (by decide), Nat.one_lt_two_pow (by decide), ?_, ?_, ?_⟩
  · intro u member
    rw [List.mem_singleton.mp member]
    change ['b', 'o', 'b'] ≠ [] ∧ Free '@' ['b', 'o', 'b']
    decide
  · intro u member
    rw [List.mem_singleton.mp member]
    exact Nat.zero_lt_one
  · intro u member store present
    rw [List.mem_singleton.mp member] at present ⊢
    cases present
    exact ⟨rfl, by decide⟩

theorem fits_bobDaemon : Fits (bobDaemon emptyText) := by
  refine ⟨?_, by decide, ?_, ?_, ?_⟩
  · intro d member
    rw [List.mem_singleton.mp member]
    decide
  · intro u member
    rw [List.mem_singleton.mp member]
    refine ⟨by decide, by decide, ⟨_, rfl, ?_⟩, ?_⟩
    · constructor <;> decide
    · intro directory among
      rw [List.mem_singleton.mp among]
      decide
  · intro u member d placed
    rw [List.mem_singleton.mp member] at placed ⊢
    cases placed
    decide
  · intro u member
    rw [List.mem_singleton.mp member]
    rfl

theorem roundTrips_bobDaemon : RoundTrips (bobDaemon emptyText) :=
  (roundTrips_iff (valid_bobDaemon emptyText)).mpr fits_bobDaemon

/-- The entry in the hands of the library. -/
def Vqpasswd.entry (pw : Vqpasswd) : Vpopmail.Vqpasswd where
  pwName := pw.pwName.val
  pwPasswd := pw.pwPasswd.val
  pwUid := pw.pwUid
  pwGid := pw.pwGid
  pwFlags := pw.pwFlags
  pwGecos := pw.pwGecos.val
  pwDir := pw.pwDir.val
  pwShell := pw.pwShell.val
  pwClearPasswd := some pw.pwClearPasswd.val

/-- Every entry passes the checks of the library in each of its builds. -/
def WithinLimits (daemon : Daemon) : Prop :=
  ∀ u ∈ daemon.users, ∃ pw d, u.pw = some pw ∧ daemon.domains[u.domain]? = some d ∧
    ∀ build, Vcdb.vcheckVqpw build pw.entry d.domain.val = .success

/-- A comment of the greatest length leaves no room for the terminator, and the save
removes its file. -/
theorem not_roundTrips : ¬ ∀ daemon, Valid daemon → WithinLimits daemon → RoundTrips daemon := by
  intro all
  let gecos : CString := ⟨List.replicate 48 'x', by decide⟩
  have limits : WithinLimits (bobDaemon gecos) := by
    intro u member
    rw [List.mem_singleton.mp member]
    refine ⟨_, _, rfl, rfl, ?_⟩
    rintro ⟨clearPass, usersBigDir⟩
    cases clearPass <;> cases usersBigDir <;> rfl
  have fits := fits_of_roundTrips (valid_bobDaemon gecos)
    (all (bobDaemon gecos) (valid_bobDaemon gecos) limits)
  rcases (fits.users _ List.mem_cons_self).pw with ⟨entry, present, short⟩
  cases present
  exact absurd short.gecos (by decide)

end Vpopmail.Vusaged.Vdb

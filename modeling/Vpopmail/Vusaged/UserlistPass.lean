import Mathlib.Tactic.Ring
import Vpopmail.Vusaged.Userlist

/-! # The pass over the list of users

A removal takes the loop back to the head, which it then steps over. This does no harm
as long as the head is one of the users that the loop has passed by already.
-/

namespace Vpopmail.Vusaged

open LinkedList

variable {users : Users} {order front rest : List Nat} {u : Nat}

/-! ## Removing a user -/

theorem deref_eq_ok {links : Links Nat} (live : users.links u = some links) :
    users.deref u = .ok links := by
  rw [Users.deref, live]

theorem linkPrev_eq_ok (target prev : Option Nat)
    (live : ∀ other, target = some other → ∃ links, users.links other = some links) :
    users.linkPrev target prev =
      .ok { users with links := setPrev users.links target prev } := by
  cases target with
  | none =>
      have same : setPrev users.links none prev = users.links := by
        funext address
        exact change_of_ne nofun
      rw [Users.linkPrev, same]
  | some other =>
      rcases live other rfl with ⟨links, there⟩
      rw [Users.linkPrev, deref_eq_ok there]
      rfl

theorem linkNext_eq_ok (target next : Option Nat)
    (live : ∀ other, target = some other → ∃ links, users.links other = some links) :
    users.linkNext target next =
      .ok { users with links := setNext users.links target next } := by
  cases target with
  | none =>
      have same : setNext users.links none next = users.links := by
        funext address
        exact change_of_ne nofun
      rw [Users.linkNext, same]
  | some other =>
      rcases live other rfl with ⟨links, there⟩
      rw [Users.linkNext, deref_eq_ok there]
      rfl

theorem exists_links_setPrev {nodes : Nat → Option (Links Nat)} {address : Nat}
    (live : ∃ links, nodes address = some links) (target prev : Option Nat) :
    ∃ links, setPrev nodes target prev address = some links := by
  rcases live with ⟨links, there⟩
  unfold setPrev change
  split
  · exact ⟨_, by rw [there, Option.map_some]⟩
  · exact ⟨links, there⟩

/-- A verification that fails takes the user out of the list. -/
theorem userVerify_lost (listed : Listed users.links users.userlist order)
    (member : u ∈ order) :
    ∃ after, users.userVerify u false = .ok (false, after) ∧
      Listed after.links after.userlist (order.erase u) ∧
      after.processing = users.processing ∧ after.userstore = users.userstore := by
  rcases listed.linked.mem_nodes member with ⟨links, node⟩
  rcases listed.unlink member node with ⟨unlinked, prevIn, nextIn⟩
  have live : ∀ other ∈ order, ∃ links, users.links other = some links :=
    fun other => listed.linked.mem_nodes
  have removed : users.linkPrev links.next links.prev =
      .ok { users with links := setPrev users.links links.next links.prev } := by
    apply linkPrev_eq_ok
    intro other next
    exact live other (List.mem_of_mem_erase (nextIn other next))
  let first : Users := { users with links := setPrev users.links links.next links.prev }
  have second : first.linkNext links.prev links.next =
      .ok { first with links := setNext first.links links.prev links.next } := by
    apply linkNext_eq_ok
    intro other prev
    exact exists_links_setPrev (live other (List.mem_of_mem_erase (prevIn other prev))) _ _
  have freed : (fun other => if other = u then none
      else setNext (setPrev users.links links.next links.prev) links.prev links.next other) =
        unlink users.links u links := by
    rw [setNext_setPrev]
    rfl
  let after : Users :=
    { users with
      links := unlink users.links u links
      userlist := if users.userlist = some u then links.next else users.userlist }
  refine ⟨after, ?_, unlinked, rfl, rfl⟩
  rw [Users.userVerify, if_neg Bool.false_ne_true, Users.userRemove, deref_eq_ok node]
  simp only [bind, Except.bind, removed]
  rw [second]
  simp only [Except.map, Users.userFree]
  split
  · rename_i atHead
    simp only [first] at atHead
    simp only [first, freed, after, atHead, if_true]
  · rename_i later
    simp only [first] at later
    simp only [first, freed, after, later, if_false]

/-! ## One round -/

theorem listed_finish (listed : Listed users.links users.userlist order)
    (polled : List (Nat × Option UserstoreState)) :
    Listed (users.finish polled).links (users.finish polled).userlist order := listed

/-- A round that removes nobody. -/
theorem round_kept {found : Round} (listed : Listed users.links users.userlist
    (front ++ u :: rest)) (kept : ¬Lost found users u) :
    ∃ after, after.links = users.links ∧ after.userlist = users.userlist ∧
      (∀ other, other ≠ u → after.processing other = users.processing other) ∧
      (round found users u = .ok (after, .breaks) ∨
        round found users u = .ok (after, .onto rest.head? [u])) := by
  have marked : ∀ mark other, other ≠ u →
      (users.mark u mark).processing other = users.processing other :=
    fun mark other different => if_neg different
  rw [round]
  split
  · exact ⟨users, rfl, rfl, fun _ _ => rfl, .inl rfl⟩
  · rename_i goesOn
    rw [deref_eq_ok listed.node]
    simp only [Except.bind]
    split
    · exact ⟨users, rfl, rfl, fun _ _ => rfl, .inr rfl⟩
    · rename_i idle
      have verified : (if (users.mark u true).mightBeLost u then
          (users.mark u true).userVerify u found.known
          else Except.ok (true, users.mark u true)) = .ok (true, users.mark u true) := by
        by_cases suspect : users.mightBeLost u = true
        · have known : found.known = true := by
            by_contra unknown
            exact kept ⟨by simpa using goesOn, by simpa using idle, suspect,
              by simpa using unknown⟩
          have looked : (users.mark u true).mightBeLost u = true := suspect
          rw [if_pos looked, Users.userVerify, if_pos known]
        · have looked : ¬(users.mark u true).mightBeLost u = true := suspect
          rw [if_neg looked]
      rw [verified]
      simp only [Bool.not_true, Bool.false_eq_true, if_false]
      split
      · refine ⟨(users.mark u true).mark u false, rfl, rfl, ?_, .inl rfl⟩
        intro other different
        exact (if_neg different).trans (marked true other different)
      · exact ⟨users.mark u true, rfl, rfl, marked true, .inr rfl⟩

theorem erase_middle (nodup : (front ++ u :: rest).Nodup) :
    (front ++ u :: rest).erase u = front ++ rest := by
  have apart := (List.nodup_middle.mp nodup)
  have notFront : u ∉ front := fun member =>
    (List.nodup_cons.mp apart).1 (List.mem_append_left rest member)
  rw [List.erase_append_right _ notFront, List.erase_cons_head]

/-- A round that removes the only user. -/
theorem round_lost_only {found : Round} (listed : Listed users.links users.userlist [u])
    (lost : Lost found users u) : round found users u = .error .nullPointer := by
  have node : users.links u = some ⟨none, none⟩ := by
    have alone : Listed users.links users.userlist ([] ++ u :: []) := listed
    exact alone.node
  have marked : Listed (users.mark u true).links (users.mark u true).userlist [u] := listed
  rcases userVerify_lost marked List.mem_cons_self with ⟨after, verified, empty, _, _⟩
  rw [List.erase_cons_head] at empty
  have suspect : (users.mark u true).mightBeLost u = true := lost.suspect
  rw [round, if_neg (by simp [lost.goesOn]), deref_eq_ok node]
  simp only [Except.bind, lost.idle, Bool.false_eq_true, if_false, suspect, if_true,
    lost.unknown, verified, Bool.not_false]
  rw [empty.head_eq]
  rfl

/-- A round that removes one of several users goes on behind the head. -/
theorem round_lost {found : Round} {head : Nat} {others : List Nat}
    (listed : Listed users.links users.userlist (front ++ u :: rest))
    (remain : front ++ rest = head :: others) (lost : Lost found users u) :
    ∃ after, Listed after.links after.userlist (head :: others) ∧
      (∀ other, other ≠ u → after.processing other = users.processing other) ∧
      round found users u =
        .ok (after, .onto others.head? (if users.processing head then [head] else [])) := by
  have marked : Listed (users.mark u true).links (users.mark u true).userlist
      (front ++ u :: rest) := listed
  rcases userVerify_lost marked (List.mem_append_right _ List.mem_cons_self) with
    ⟨after, verified, remaining, processing, _⟩
  rw [erase_middle listed.nodup, remain] at remaining
  have different : head ≠ u := by
    intro same
    have apart := List.nodup_cons.mp (List.nodup_middle.mp listed.nodup)
    rw [remain, same] at apart
    exact apart.1 List.mem_cons_self
  have unmarked : ∀ other, other ≠ u → after.processing other = users.processing other := by
    intro other otherNe
    rw [processing]
    exact if_neg otherNe
  refine ⟨after, remaining, unmarked, ?_⟩
  have suspect : (users.mark u true).mightBeLost u = true := lost.suspect
  have second : Listed after.links after.userlist ([] ++ head :: others) := remaining
  rw [round, if_neg (by simp [lost.goesOn]), deref_eq_ok listed.node]
  simp only [Except.bind, lost.idle, Bool.false_eq_true, if_false, suspect, if_true,
    lost.unknown, verified, Bool.not_false]
  rw [remaining.head_eq]
  simp only [List.head?_cons]
  rw [deref_eq_ok second.node, unmarked head different]
  rfl

/-! ## The whole pass -/

/-- What a pass has covered that begins with some users passed by. -/
def Covers (rounds : List Round) (users : Users) (start : Option Nat) (done passed : List Nat) :
    Prop :=
  ∃ result, pass rounds users start passed = .ok result ∧
    ∃ front rest, Listed result.users.links result.users.userlist (front ++ rest) ∧
      result.place = rest.head? ∧ ∀ u ∈ front, u ∈ done ∨ u ∈ result.passed

/-- The rounds that a pass takes at most. -/
def enoughRounds (front rest : List Nat) : Nat :=
  (front.length + rest.length) * (front.length + rest.length + 1) + rest.length

/-- With a user in front that the pass has been at, no removal does any harm. -/
theorem covers_of_settled {rounds : List Round} {done passed : List Nat}
    (enough : enoughRounds front rest ≤ rounds.length) (started : front ≠ [])
    (listed : Listed users.links users.userlist (front ++ rest))
    (settled : ∀ other ∈ front, other ∈ done ∨ other ∈ passed) :
    Covers rounds users rest.head? done passed := by
  induction rounds generalizing users front rest passed with
  | nil =>
      have none : rest = [] := by
        rw [enoughRounds, List.length_nil] at enough
        exact List.length_eq_zero_iff.mp (by omega)
      subst none
      exact ⟨⟨users, none, passed⟩, rfl, front, [], listed, rfl, settled⟩
  | cons found rounds induction =>
      cases rest with
      | nil => exact ⟨⟨users, none, passed⟩, rfl, front, [], listed, rfl, settled⟩
      | cons u rest =>
          have finished := listed_finish listed found.polled
          rw [enoughRounds, List.length_cons, List.length_cons] at enough
          rw [Covers, List.head?_cons, pass]
          by_cases lost : Lost found (users.finish found.polled) u
          · cases front with
            | nil => exact absurd rfl started
            | cons head front =>
                rcases round_lost finished (List.cons_append ..) lost with
                  ⟨after, remaining, _, onward⟩
                rw [onward]
                have behind : Listed after.links after.userlist ([head] ++ (front ++ rest)) :=
                  remaining
                refine induction ?_ ?_ behind ?_
                · rw [List.length_cons] at enough
                  rw [enoughRounds, List.length_singleton, List.length_append]
                  generalize sum : front.length + rest.length = count at enough ⊢
                  have square : (front.length + 1 + (rest.length + 1)) *
                      (front.length + 1 + (rest.length + 1) + 1) =
                        (1 + count) * (1 + count + 1) + 2 * (count + 2) := by
                    rw [← sum]
                    ring
                  omega
                · simp
                · intro other member
                  rw [List.mem_singleton.mp member]
                  rcases settled head List.mem_cons_self with old | seen
                  · exact .inl old
                  · exact .inr (List.mem_append_right _ seen)
          · rcases round_kept finished lost with
              ⟨after, links, userlist, _, breaks | onward⟩
            · rw [breaks]
              refine ⟨⟨after, some u, passed⟩, rfl, front, u :: rest, ?_, rfl, settled⟩
              rw [links, userlist]
              exact finished
            · rw [onward]
              have behind : Listed after.links after.userlist ((front ++ [u]) ++ rest) := by
                rw [links, userlist, List.append_assoc]
                exact finished
              refine induction ?_ ?_ behind ?_
              · rw [enoughRounds, List.length_append, List.length_singleton]
                have same : front.length + 1 + rest.length =
                    front.length + (rest.length + 1) := by omega
                rw [same]
                omega
              · simp
              · intro other member
                rcases List.mem_append.mp member with early | last
                · rcases settled other early with old | seen
                  · exact .inl old
                  · exact .inr (List.mem_append_right _ seen)
                · rw [List.mem_singleton.mp last]
                  exact .inr List.mem_cons_self

/-- The head that is stepped over stays in front of the loop. -/
theorem head_not_passed {rounds : List Round} {head : Nat} {passed : List Nat}
    (listed : Listed users.links users.userlist (head :: (front ++ rest)))
    (idle : users.processing head = false) (unseen : head ∉ passed) {result : PassResult}
    (ran : pass rounds users rest.head? passed = .ok result) :
    head ∉ result.passed ∧ ∃ others,
      Listed result.users.links result.users.userlist (head :: others) ∧
        result.place ≠ some head := by
  induction rounds generalizing users front rest passed with
  | nil =>
      cases rest with
      | nil =>
          cases ran
          exact ⟨unseen, _, listed, nofun⟩
      | cons u rest => cases ran
  | cons found rounds induction =>
      cases rest with
      | nil =>
          cases ran
          exact ⟨unseen, _, listed, nofun⟩
      | cons u rest =>
          have apart := List.nodup_cons.mp listed.nodup
          have different : head ≠ u := by
            intro same
            exact apart.1 (same ▸ List.mem_append_right _ List.mem_cons_self)
          have still : (users.finish found.polled).processing head = false := by
            simp [Users.finish, idle]
          have finished : Listed (users.finish found.polled).links
              (users.finish found.polled).userlist ((head :: front) ++ u :: rest) := listed
          rw [List.head?_cons, pass] at ran
          by_cases lost : Lost found (users.finish found.polled) u
          · rcases round_lost finished (List.cons_append ..) lost with
              ⟨after, remaining, processing, onward⟩
            rw [onward, still] at ran
            have behind : Listed after.links after.userlist (head :: ([] ++ (front ++ rest))) :=
              remaining
            apply induction behind ?_ unseen ran
            rw [processing head different]
            exact still
          · rcases round_kept finished lost with
              ⟨after, links, userlist, processing, breaks | onward⟩
            · rw [breaks] at ran
              cases ran
              refine ⟨unseen, front ++ u :: rest, ?_, ?_⟩
              · rw [links, userlist]
                exact listed
              · intro same
                exact different (Option.some.inj same).symm
            · rw [onward] at ran
              have behind : Listed after.links after.userlist
                  (head :: ((front ++ [u]) ++ rest)) := by
                rw [links, userlist, List.append_assoc]
                exact listed
              apply induction behind ?_ ?_ ran
              · rw [processing head different]
                exact still
              · intro member
                rcases List.mem_cons.mp member with same | seen
                · exact different same
                · exact unseen seen

/-! ## A pass from the head -/

section Head

variable {found : Round} {rounds : List Round}

theorem losesHead_iff : LosesHead (found :: rounds) users (u :: rest) (some u) ↔
    Lost found (users.finish found.polled) u ∧ ∀ second, rest.head? = some second →
      (users.finish found.polled).processing second = false := by
  constructor
  · intro loses
    rcases loses with ⟨_, _, _, _, first, order, _, lost, idle⟩
    cases first
    cases order
    exact ⟨lost, idle⟩
  · intro loses
    exact ⟨found, rounds, u, rest, rfl, rfl, rfl, loses.1, loses.2⟩

/-- The first round removes nobody. -/
theorem passCovers_kept (listed : Listed users.links users.userlist (u :: rest))
    (enough : enoughRounds [u] rest ≤ rounds.length)
    (kept : ¬Lost found (users.finish found.polled) u) :
    PassCovers (found :: rounds) users (some u) [] := by
  have finished : Listed (users.finish found.polled).links
      (users.finish found.polled).userlist ([] ++ u :: rest) := listed
  rw [PassCovers, pass]
  rcases round_kept finished kept with ⟨after, links, userlist, _, breaks | onward⟩
  · rw [breaks]
    refine ⟨⟨after, some u, []⟩, rfl, [], u :: rest, ?_, rfl, by simp⟩
    rw [links, userlist]
    exact finished
  · rw [onward]
    apply covers_of_settled enough (List.cons_ne_nil _ _)
    · rw [links, userlist]
      exact finished
    · intro other member
      exact .inr member

/-- The first round removes the head, and the next user is in processing. -/
theorem passCovers_busy {second : Nat}
    (listed : Listed users.links users.userlist (u :: second :: rest))
    (enough : enoughRounds [second] rest ≤ rounds.length)
    (lost : Lost found (users.finish found.polled) u)
    (busy : (users.finish found.polled).processing second = true) :
    PassCovers (found :: rounds) users (some u) [] := by
  have finished : Listed (users.finish found.polled).links
      (users.finish found.polled).userlist ([] ++ u :: second :: rest) := listed
  rcases round_lost finished (List.nil_append _) lost with ⟨after, remaining, _, onward⟩
  rw [PassCovers, pass, onward, busy]
  apply covers_of_settled enough (List.cons_ne_nil _ _)
  · exact remaining
  · intro other member
    exact .inr member

theorem not_passCovers_alone (listed : Listed users.links users.userlist [u])
    (lost : Lost found (users.finish found.polled) u) :
    ¬PassCovers (found :: rounds) users (some u) [] := by
  intro covers
  rcases covers with ⟨_, ran, _⟩
  rw [pass, round_lost_only (listed_finish listed found.polled) lost] at ran
  cases ran

/-- The first round removes the head, and the next user is left out. -/
theorem not_passCovers_idle {second : Nat}
    (listed : Listed users.links users.userlist (u :: second :: rest))
    (lost : Lost found (users.finish found.polled) u)
    (idle : (users.finish found.polled).processing second = false) :
    ¬PassCovers (found :: rounds) users (some u) [] := by
  have finished : Listed (users.finish found.polled).links
      (users.finish found.polled).userlist ([] ++ u :: second :: rest) := listed
  have different : second ≠ u := by
    intro same
    exact (List.nodup_cons.mp listed.nodup).1 (same ▸ List.mem_cons_self)
  rcases round_lost finished (List.nil_append _) lost with
    ⟨after, remaining, processing, onward⟩
  intro covers
  rcases covers with ⟨result, ran, front, behind, order, place, passed⟩
  rw [pass, onward, idle] at ran
  have still : Listed after.links after.userlist (second :: ([] ++ rest)) := remaining
  rcases head_not_passed still (processing second different ▸ idle) List.not_mem_nil ran with
    ⟨unseen, others, whole, notPlace⟩
  have same := order.unique whole
  cases front with
  | nil =>
      rw [List.nil_append] at same
      rw [same] at place
      exact notPlace place
  | cons first front =>
      rw [List.cons_append, List.cons.injEq] at same
      rcases passed second (same.1 ▸ List.mem_cons_self) with old | seen
      · cases old
      · exact unseen seen

end Head

/-- The pass over the list is safe, ends and is complete, from any user of the list on and
whatever the verifications find, unless it begins at the head and loses it while the
user behind it is missing or not in processing. -/
theorem passCovers_iff (users : Users) (front rest : List Nat)
    (listed : Listed users.links users.userlist (front ++ rest)) (rounds : List Round)
    (enough : (front ++ rest).length * ((front ++ rest).length + 2) ≤ rounds.length) :
    PassCovers rounds users rest.head? front ↔
      ¬LosesHead rounds users (front ++ rest) rest.head? := by
  rw [List.length_append] at enough
  have rounded : enoughRounds front rest ≤ rounds.length := by
    apply Nat.le_trans ?_ enough
    rw [enoughRounds, Nat.mul_succ (front.length + rest.length) (front.length + rest.length + 1)]
    omega
  cases front with
  | cons head front =>
      have covers : PassCovers rounds users rest.head? (head :: front) := by
        apply covers_of_settled rounded (List.cons_ne_nil _ _) listed
        intro other member
        exact .inl member
      refine iff_of_true covers ?_
      intro loses
      rcases loses with ⟨found, others, u, tail, _, order, start, _⟩
      rw [List.cons_append, List.cons.injEq] at order
      have apart := List.nodup_cons.mp listed.nodup
      exact apart.1 (List.mem_append_right _ (List.mem_of_head? (order.1 ▸ start)))
  | nil =>
      rw [List.nil_append] at listed ⊢
      cases rest with
      | nil =>
          have covers : PassCovers rounds users none [] :=
            ⟨⟨users, none, []⟩, by rw [pass], [], [], listed, rfl, by simp⟩
          refine iff_of_true covers ?_
          intro loses
          rcases loses with ⟨found, others, u, tail, _, order, _⟩
          cases order
      | cons u rest =>
          cases rounds with
          | nil => simp [enoughRounds] at rounded
          | cons found rounds =>
              rw [List.head?_cons, losesHead_iff]
              rw [List.length_nil, List.length_cons, List.length_cons] at enough
              have room : (1 + rest.length) * (1 + rest.length + 1) + rest.length ≤
                  rounds.length := by
                have square : (0 + (rest.length + 1)) * (0 + (rest.length + 1) + 2) =
                    (1 + rest.length) * (1 + rest.length + 1) + rest.length + 1 := by ring
                omega
              by_cases lost : Lost found (users.finish found.polled) u
              · cases rest with
                | nil =>
                    refine iff_of_false (not_passCovers_alone listed lost) ?_
                    intro kept
                    exact kept ⟨lost, nofun⟩
                | cons second rest =>
                    cases busy : (users.finish found.polled).processing second with
                    | true =>
                        refine iff_of_true (passCovers_busy listed ?_ lost busy) ?_
                        · rw [List.length_cons] at room
                          rw [enoughRounds, List.length_singleton]
                          have less : (1 + rest.length) * (1 + rest.length + 1) ≤
                              (1 + (rest.length + 1)) * (1 + (rest.length + 1) + 1) :=
                            Nat.mul_le_mul (by omega) (by omega)
                          omega
                        · intro loses
                          rw [loses.2 second rfl] at busy
                          cases busy
                    | false =>
                        refine iff_of_false (not_passCovers_idle listed lost busy) ?_
                        intro kept
                        apply kept
                        refine ⟨lost, ?_⟩
                        intro other first
                        cases first
                        exact busy
              · refine iff_of_true (passCovers_kept listed ?_ lost) fun loses => lost loses.1
                rw [enoughRounds, List.length_singleton]
                exact room

/-! ## Lists of few users -/

def noUsers : Users := ⟨fun _ => none, none, fun _ => false, fun _ => none⟩

theorem listed_noUsers : Listed noUsers.links noUsers.userlist [] :=
  ⟨rfl, List.nodup_nil, trivial⟩

theorem listed_userUserlistAdd (listed : Listed users.links users.userlist order) {added : Nat}
    (fresh : added ∉ order) :
    Listed (users.userUserlistAdd added).links (users.userUserlistAdd added).userlist
      (added :: order) := listed.push fresh

def oneUser : Users := noUsers.userUserlistAdd 1

def twoUsers : Users := oneUser.userUserlistAdd 2

def threeUsers : Users := twoUsers.userUserlistAdd 3

theorem listed_oneUser : Listed oneUser.links oneUser.userlist [1] :=
  listed_userUserlistAdd listed_noUsers List.not_mem_nil

theorem listed_twoUsers : Listed twoUsers.links twoUsers.userlist [2, 1] :=
  listed_userUserlistAdd listed_oneUser (by decide)

theorem listed_threeUsers : Listed threeUsers.links threeUsers.userlist [3, 2, 1] :=
  listed_userUserlistAdd listed_twoUsers (by decide)

/-- A round in which the user is still known to the backend or not. -/
def roundWith (known : Bool) : Round := ⟨[], false, known, false⟩

/-- The first of three users is known and the others are lost. -/
theorem passCovers_threeUsers :
    PassCovers (roundWith true :: List.replicate 14 (roundWith false)) threeUsers (some 3) [] := by
  apply (passCovers_iff threeUsers [] [3, 2, 1] listed_threeUsers _ (by decide)).mpr
  intro loses
  rw [List.nil_append, List.head?_cons, losesHead_iff] at loses
  have unknown : true = false := loses.1.unknown
  cases unknown

/-- Losing the only user takes the loop to a null pointer. When the first of two users is
lost, the pass ends without having looked at the second. -/
theorem not_passCovers :
    pass (List.replicate 3 (roundWith false)) oneUser (some 1) [] = .error .nullPointer ∧
      ¬PassCovers (List.replicate 8 (roundWith false)) twoUsers (some 2) [] := by
  have lost : ∀ (users : Users) (u : Nat), users.processing u = false →
      users.userstore u = none →
      Lost (roundWith false) (users.finish (roundWith false).polled) u := by
    intro users u idle unloaded
    refine ⟨rfl, ?_, ?_, rfl⟩
    · simp [Users.finish, idle]
    · simp [roundWith, Users.mightBeLost, Users.finish, unloaded]
  constructor
  · rw [List.replicate_succ, pass]
    rw [round_lost_only (listed_finish listed_oneUser _) (lost oneUser 1 rfl rfl)]
    rfl
  · exact not_passCovers_idle listed_twoUsers (lost twoUsers 2 rfl rfl) rfl

end Vpopmail.Vusaged

import Mathlib.Data.List.Basic
import Mathlib.Data.List.Nodup

/-! # Doubly linked lists

Nodes at addresses, each with a link to the node before it and to the node
behind it. Pushing a node to the front and unlinking any node keep the list in
order.
-/

namespace Vpopmail.LinkedList

variable {Address : Type}

structure Links (Address : Type) where
  prev : Option Address
  next : Option Address

/-- The nodes of a stretch of a list, between a node before it and one behind it. -/
def Linked (nodes : Address → Option (Links Address)) (previous : Option Address) :
    List Address → (following : Option Address) → Prop
  | [], _ => True
  | address :: rest, following =>
      nodes address = some ⟨previous, rest.head?.or following⟩ ∧
        Linked nodes (some address) rest following

/-- A whole list, from its head. -/
structure Listed (nodes : Address → Option (Links Address)) (head : Option Address)
    (order : List Address) : Prop where
  head_eq : head = order.head?
  nodup : order.Nodup
  linked : Linked nodes none order none

theorem Linked.congr {nodes others : Address → Option (Links Address)}
    {previous following : Option Address} {order : List Address}
    (linked : Linked nodes previous order following)
    (same : ∀ address ∈ order, others address = nodes address) :
    Linked others previous order following := by
  induction order generalizing previous with
  | nil => trivial
  | cons address rest induction =>
      refine ⟨(same address List.mem_cons_self).trans linked.1, induction linked.2 ?_⟩
      intro other member
      exact same other (List.mem_cons_of_mem _ member)

theorem linked_append {nodes : Address → Option (Links Address)}
    {previous following : Option Address} {before after : List Address} :
    Linked nodes previous (before ++ after) following ↔
      Linked nodes previous before (after.head?.or following) ∧
        Linked nodes (before.getLast?.or previous) after following := by
  induction before generalizing previous with
  | nil => simp [Linked]
  | cons address rest induction =>
      have front : (rest ++ after).head?.or following =
          rest.head?.or (after.head?.or following) := by
        rw [List.head?_append, Option.or_assoc]
      have final : (address :: rest).getLast?.or previous =
          rest.getLast?.or (some address) := by
        rw [List.getLast?_cons, Option.some_or]
        cases rest.getLast? <;> rfl
      rw [List.cons_append, Linked, Linked, induction, front, final, and_assoc]

theorem Linked.mem_nodes {nodes : Address → Option (Links Address)}
    {previous following : Option Address} {order : List Address}
    (linked : Linked nodes previous order following) {address : Address}
    (member : address ∈ order) : ∃ links, nodes address = some links := by
  induction order generalizing previous with
  | nil => cases member
  | cons first rest induction =>
      cases member with
      | head => exact ⟨_, linked.1⟩
      | tail _ member => exact induction linked.2 member

/-- The links of a node in the middle. -/
theorem Listed.node {nodes : Address → Option (Links Address)} {head : Option Address}
    {front rest : List Address} {address : Address}
    (listed : Listed nodes head (front ++ address :: rest)) :
    nodes address = some ⟨front.getLast?, rest.head?⟩ := by
  have parts := linked_append.mp listed.linked
  have first := parts.2.1
  rwa [Option.or_none, Option.or_none] at first

theorem Linked.unique {nodes : Address → Option (Links Address)} {previous : Option Address}
    {order other : List Address} (linked : Linked nodes previous order none)
    (otherLinked : Linked nodes previous other none) (heads : order.head? = other.head?) :
    order = other := by
  induction order generalizing previous other with
  | nil =>
      cases other with
      | nil => rfl
      | cons address rest => cases heads
  | cons address rest induction =>
      cases other with
      | nil => cases heads
      | cons second tail =>
          have same : address = second := Option.some.inj heads
          subst same
          have next := linked.1.symm.trans otherLinked.1
          rw [Option.or_none, Option.or_none, Option.some.injEq, Links.mk.injEq] at next
          rw [induction linked.2 otherLinked.2 next.2]

/-- The memory determines the order of a list. -/
theorem Listed.unique {nodes : Address → Option (Links Address)} {head : Option Address}
    {order other : List Address} (listed : Listed nodes head order)
    (otherListed : Listed nodes head other) : order = other :=
  listed.linked.unique otherListed.linked (listed.head_eq.symm.trans otherListed.head_eq)

variable [DecidableEq Address]

/-! ## Changing links -/

/-- The nodes with the links of one of them, if there is a target, changed. -/
def change (nodes : Address → Option (Links Address)) (target : Option Address)
    (links : Links Address → Links Address) : Address → Option (Links Address) :=
  fun address => if target = some address then (nodes address).map links else nodes address

def setNext (nodes : Address → Option (Links Address)) (target next : Option Address) :
    Address → Option (Links Address) :=
  change nodes target fun links => { links with next := next }

def setPrev (nodes : Address → Option (Links Address)) (target prev : Option Address) :
    Address → Option (Links Address) :=
  change nodes target fun links => { links with prev := prev }

theorem change_of_ne {nodes : Address → Option (Links Address)} {target : Option Address}
    {links : Links Address → Links Address} {address : Address}
    (other : target ≠ some address) : change nodes target links address = nodes address :=
  if_neg other

theorem change_of_eq {nodes : Address → Option (Links Address)}
    {links : Links Address → Links Address} {address : Address} :
    change nodes (some address) links address = (nodes address).map links := if_pos rfl

theorem isSome_change (nodes : Address → Option (Links Address)) (target : Option Address)
    (links : Links Address → Links Address) (address : Address) :
    (change nodes target links address).isSome = (nodes address).isSome := by
  unfold change
  split
  · exact Option.isSome_map
  · rfl

theorem setNext_setPrev (nodes : Address → Option (Links Address))
    (target next other prev : Option Address) :
    setNext (setPrev nodes other prev) target next =
      setPrev (setNext nodes target next) other prev := by
  funext address
  unfold setNext setPrev change
  split
  · split
    · rw [Option.map_map, Option.map_map]
      rfl
    · rfl
  · rfl

theorem Linked.setNext {nodes : Address → Option (Links Address)}
    {previous following : Option Address} {order : List Address}
    (linked : Linked nodes previous order following) (nodup : order.Nodup)
    (next : Option Address) :
    Linked (LinkedList.setNext nodes order.getLast? next) previous order next := by
  induction order generalizing previous with
  | nil => trivial
  | cons address rest induction =>
      have fresh := List.nodup_cons.mp nodup
      have later := induction linked.2 fresh.2
      cases rest with
      | nil =>
          refine ⟨?_, trivial⟩
          rw [LinkedList.setNext, List.getLast?_singleton, change_of_eq, linked.1]
          rfl
      | cons second rest =>
          rw [List.getLast?_cons_cons]
          refine ⟨?_, later⟩
          rw [LinkedList.setNext, change_of_ne, linked.1]
          · rfl
          · intro final
            exact fresh.1 (List.mem_of_getLast? final)

theorem Linked.setPrev {nodes : Address → Option (Links Address)}
    {previous following : Option Address} {order : List Address}
    (linked : Linked nodes previous order following) (nodup : order.Nodup)
    (prev : Option Address) :
    Linked (LinkedList.setPrev nodes order.head? prev) prev order following := by
  cases order with
  | nil => trivial
  | cons address rest =>
      have fresh := List.nodup_cons.mp nodup
      refine ⟨?_, linked.2.congr ?_⟩
      · rw [LinkedList.setPrev, List.head?_cons, change_of_eq, linked.1]
        rfl
      · intro other member
        apply change_of_ne
        rw [List.head?_cons]
        intro same
        exact fresh.1 (Option.some.inj same ▸ member)

/-! ## Pushing and unlinking -/

/-- A node put before the head. -/
def push (nodes : Address → Option (Links Address)) (head : Option Address) (added : Address) :
    Address → Option (Links Address) :=
  fun address => if address = added then some ⟨none, head⟩
    else setPrev nodes head (some added) address

theorem Listed.push {nodes : Address → Option (Links Address)} {head : Option Address}
    {order : List Address} (listed : Listed nodes head order) {added : Address}
    (fresh : added ∉ order) :
    Listed (LinkedList.push nodes head added) (some added) (added :: order) := by
  refine ⟨rfl, List.nodup_cons.mpr ⟨fresh, listed.nodup⟩, ?_, ?_⟩
  · rw [LinkedList.push, if_pos rfl, Option.or_none, listed.head_eq]
  · rw [listed.head_eq]
    refine (listed.linked.setPrev listed.nodup (some added)).congr ?_
    intro address member
    exact if_neg (ne_of_mem_of_not_mem member fresh)

/-- A node taken out, its neighbours linked to each other. -/
def unlink (nodes : Address → Option (Links Address)) (removed : Address)
    (links : Links Address) : Address → Option (Links Address) :=
  fun address => if address = removed then none
    else setPrev (setNext nodes links.prev links.next) links.next links.prev address

theorem Listed.unlink {nodes : Address → Option (Links Address)} {head : Option Address}
    {order : List Address} (listed : Listed nodes head order) {removed : Address}
    {links : Links Address} (member : removed ∈ order) (node : nodes removed = some links) :
    Listed (LinkedList.unlink nodes removed links)
        (if head = some removed then links.next else head) (order.erase removed) ∧
      (∀ address, links.prev = some address → address ∈ order.erase removed) ∧
      (∀ address, links.next = some address → address ∈ order.erase removed) := by
  rcases List.append_of_mem member with ⟨before, after, rfl⟩
  have nodup := listed.nodup
  have apart := List.nodup_append.mp nodup
  have notAfter := List.nodup_cons.mp apart.2.1
  have notBefore : removed ∉ before := fun early =>
    apart.2.2 removed early removed List.mem_cons_self rfl
  have erased : (before ++ removed :: after).erase removed = before ++ after := by
    rw [List.erase_append_right _ notBefore, List.erase_cons_head]
  have parts := linked_append.mp listed.linked
  have own : links = ⟨before.getLast?, after.head?⟩ := by
    have first := parts.2.1
    rw [node, Option.or_none, Option.or_none] at first
    exact Option.some.inj first
  have disjoint : ∀ address ∈ before, address ∉ after := fun address early late =>
    apart.2.2 address early address (List.mem_cons_of_mem _ late) rfl
  rw [erased, own]
  refine ⟨⟨?_, ?_, ?_⟩, ?_, ?_⟩
  · rw [listed.head_eq]
    cases before with
    | nil => simp
    | cons first rest =>
        have other : first ≠ removed := fun same => notBefore (same ▸ List.mem_cons_self)
        simp [other]
  · rw [List.nodup_append]
    exact ⟨apart.1, notAfter.2, fun address early other late same =>
      disjoint address early (same ▸ late)⟩
  · rw [linked_append, Option.or_none, Option.or_none]
    constructor
    · refine (parts.1.setNext apart.1 after.head?).congr ?_
      intro address early
      rw [LinkedList.unlink, if_neg (ne_of_mem_of_not_mem early notBefore), LinkedList.setPrev,
        change_of_ne]
      intro first
      exact disjoint address early (List.mem_of_head? first)
    · have stretch : Linked nodes (some removed) after none := parts.2.2
      refine (stretch.setPrev notAfter.2 before.getLast?).congr ?_
      intro address late
      have kept : LinkedList.setNext nodes before.getLast? after.head? address = nodes address :=
        change_of_ne fun final => disjoint address (List.mem_of_getLast? final) late
      rw [LinkedList.unlink, if_neg (ne_of_mem_of_not_mem late notAfter.1), LinkedList.setPrev,
        LinkedList.setPrev, change, change, kept]
  · intro address final
    exact List.mem_append_left _ (List.mem_of_getLast? final)
  · intro address first
    exact List.mem_append_right _ (List.mem_of_head? first)

end Vpopmail.LinkedList

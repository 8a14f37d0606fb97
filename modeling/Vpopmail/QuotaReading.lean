import Vpopmail.Foundation.Buffer
import Vpopmail.Foundation.Decimal

/-! # `quota_mtos`

The limits of a stored quota, as `quota.c` reads them: a component tells its kind by its last
character, and the first one of a kind counts.
-/

namespace Vpopmail.Maildirquota

open Text Buffer Decimal

/-- One of the results, which is open until a component of its kind has been read. -/
structure Limit where
  value : BitVec 64
  isOpen : Bool

structure Limits where
  size : Limit
  count : Limit

/-- `strtoll(t, NULL, 10)` as a `storage_t`. -/
def strtoll (t : List Char) : BitVec 64 := BitVec.ofInt 64 (strtol t)

/-- The first number closes the result. -/
def Limit.assign (limit : Limit) (t : List Char) : Limit :=
  if limit.isOpen then ⟨if strtoll t ≠ -1 then strtoll t else limit.value, false⟩ else limit

/-- The `switch` on the character in front of the end of a component, which `*(h - 1)` reads
outside the string when there is none. -/
def Limits.component (limits : Limits) (before : Option Char) (ended : Bool) (t : List Char) :
    Checked Limits :=
  match before with
  | none => .error .outOfBounds
  | some 'S' => .ok { limits with size := limits.size.assign t }
  | some 'C' => .ok { limits with count := limits.count.assign t }
  | some _ => .ok (if ended then { limits with size := limits.size.assign t } else limits)

/-- The loop, where `h` and `t` are the strings at the pointers and `before` is `*(h - 1)`. -/
def mtosLoop : (rounds : Nat) → (before : Option Char) → (h t : List Char) → Limits →
    Checked Limits
  | 0, _, _, _, limits => .ok limits
  | _ + 1, before, [], t, limits => limits.component before true t
  | rounds + 1, before, char :: h, t, limits =>
      if char = ',' then
        (limits.component before false t).bind fun limits =>
          mtosLoop rounds (some ',') (h.dropWhile (· = ',')) (h.dropWhile (· = ',')) limits
      else mtosLoop rounds (some char) h t limits

/-- `quota_mtos`, with the size and the count it stores. -/
def quotaMtos (quota : List Char) : Checked (BitVec 64 × BitVec 64) :=
  (mtosLoop (quota.length + 1) none quota quota ⟨⟨0, true⟩, ⟨0, true⟩⟩).map fun limits =>
    (limits.size.value, limits.count.value)

/-! ## The components that decide -/

def components (quota : List Char) : List (List Char) := quota.splitOn ','

def endsIn (kind : Char) (component : List Char) : Bool := component.getLast? = some kind

/-- The first component of sizes, or a last one of no kind. -/
def sizeComponent (components : List (List Char)) : Option (List Char) :=
  (components.find? (endsIn 'S')).or
    (components.getLast?.filter fun component => !endsIn 'C' component)

def countComponent (components : List (List Char)) : Option (List Char) :=
  components.find? (endsIn 'C')

/-- The number of a component, zero if it is absent. -/
def number (component : Option (List Char)) : BitVec 64 := (component.map strtoll).getD 0

/-! ## The loop over the components -/

/-- What a component does to the limits. -/
def Limits.read (limits : Limits) (ended : Bool) (component : List Char) : Limits :=
  if endsIn 'S' component then { limits with size := limits.size.assign component }
  else if endsIn 'C' component then { limits with count := limits.count.assign component }
  else if ended then { limits with size := limits.size.assign component }
  else limits

def Limits.readAll : List (List Char) → Limits → Limits
  | [], limits => limits
  | [component], limits => limits.read true component
  | component :: components, limits => Limits.readAll components (limits.read false component)

section Loop

/-- A number ends at the end of its component. -/
theorem assign_component (limit : Limit) (component rest : List Char) :
    limit.assign (component ++ ',' :: rest) = limit.assign component := by
  have same : strtoll (component ++ ',' :: rest) = strtoll component := by
    rw [strtoll, strtol_append_cons (by decide), strtoll]
  rw [Limit.assign, Limit.assign, same]

/-- The loop goes on to the end of a component. -/
theorem mtosLoop_component (rounds : Nat) (before : Option Char) {component : List Char}
    (free : Free ',' component) (h t : List Char) (limits : Limits) :
    mtosLoop (rounds + component.length) before (component ++ h) t limits =
      mtosLoop rounds (component.getLast?.or before) h t limits := by
  induction component generalizing before with
  | nil => rfl
  | cons char component induction =>
      rw [free_cons] at free
      rw [List.cons_append, List.length_cons, ← Nat.add_assoc, mtosLoop, if_neg (Ne.symm free.1),
        induction _ free.2, List.getLast?_cons]
      cases component.getLast? <;> rfl

/-- The character in front of the end tells the kind of the component. -/
theorem component_eq (limits : Limits) (ended : Bool) {before : Option Char}
    {component t : List Char} (begun : component ≠ [] ∨ before = some ',')
    (read : ∀ limit : Limit, limit.assign t = limit.assign component) :
    limits.component (component.getLast?.or before) ended t =
      .ok (limits.read ended component) := by
  rw [Limits.read, endsIn, endsIn]
  cases last : component.getLast? with
  | none =>
      have comma := begun.resolve_left (fun some => some (List.getLast?_eq_none_iff.mp last))
      rw [comma, ← read limits.size]
      cases ended <;> rfl
  | some char =>
      by_cases size : char = 'S'
      · rw [size, ← read limits.size]
        rfl
      · by_cases count : char = 'C'
        · rw [count, ← read limits.count]
          rfl
        · have other : limits.component (some char) ended t =
              .ok (if ended then { limits with size := limits.size.assign t } else limits) := by
            rw [Limits.component]
            · exact size
            · exact count
          have notSize : ¬decide (some char = some 'S') = true := by simpa using size
          have notCount : ¬decide (some char = some 'C') = true := by simpa using count
          rw [Option.some_or, other, if_neg notSize, if_neg notCount, read limits.size]

theorem readAll_cons (component : List Char) {components : List (List Char)}
    (more : components ≠ []) (limits : Limits) :
    Limits.readAll (component :: components) limits =
      Limits.readAll components (limits.read false component) := by
  cases components with
  | nil => exact absurd rfl more
  | cons next components => rfl

theorem components_ne_nil (quota : List Char) : components quota ≠ [] :=
  List.splitOn_ne_nil ',' quota

theorem components_append {component : List Char} (free : Free ',' component)
    (rest : List Char) : components (component ++ ',' :: rest) = component :: components rest := by
  rw [components, components, List.splitOn_append_cons_self, List.splitOn_eq_singleton free]
  rfl

/-- Doubled commas separate nothing. -/
theorem readAll_dropWhile (rest : List Char) (limits : Limits) :
    Limits.readAll (components (rest.dropWhile (· = ','))) limits =
      Limits.readAll (components rest) limits := by
  induction rest with
  | nil => rfl
  | cons char rest induction =>
      by_cases comma : char = ','
      · have empty : components (char :: rest) = [] :: components rest := by
          rw [comma]
          exact components_append (free_nil ',') rest
        rw [List.dropWhile_cons_of_pos (by simpa using comma), induction, empty,
          readAll_cons [] (components_ne_nil rest)]
        rfl
      · rw [List.dropWhile_cons_of_neg (by simpa using comma)]

theorem mtosLoop_eq {text : List Char} {rounds : Nat} (enough : text.length < rounds)
    {before : Option Char} (begun : (text ≠ [] ∧ text.head? ≠ some ',') ∨ before = some ',')
    (limits : Limits) :
    mtosLoop rounds before text text limits = .ok (Limits.readAll (components text) limits) := by
  obtain ⟨more, rfl⟩ := Nat.exists_eq_add_of_lt enough
  induction size : text.length using Nat.strong_induction_on
    generalizing text before limits more with
  | _ length induction =>
      rcases free_or_eq_append_cons ',' text with free | ⟨component, rest, free, rfl⟩
      · have walked := mtosLoop_component (more + 1) before free [] text limits
        rw [List.append_nil] at walked
        have rounds : length + more + 1 = more + 1 + text.length := by omega
        rw [rounds, walked, components, List.splitOn_eq_singleton free, mtosLoop]
        exact component_eq limits true (begun.imp_left And.left) fun _ => rfl
      · have started : component ≠ [] ∨ before = some ',' := by
          refine begun.imp_left fun nonempty empty => nonempty.2 ?_
          rw [empty]
          rfl
        have smaller : (rest.dropWhile (· = ',')).length ≤ rest.length :=
          List.length_dropWhile_le _ rest
        rw [List.length_append, List.length_cons] at size
        obtain ⟨others, spare⟩ : ∃ others, rest.length + more + 1 =
            (rest.dropWhile (· = ',')).length + others + 1 :=
          ⟨rest.length + more - (rest.dropWhile (· = ',')).length, by omega⟩
        have rounds : length + more + 1 =
            rest.length + more + 1 + 1 + component.length := by omega
        have behind := induction (rest.dropWhile (· = ',')).length (by omega) (.inr rfl)
          (limits.read false component) others (by omega) rfl
        rw [rounds, mtosLoop_component _ _ free, mtosLoop, if_pos rfl,
          component_eq limits false started fun limit => assign_component limit component rest,
          components_append free, readAll_cons _ (components_ne_nil rest), ← readAll_dropWhile,
          spare]
        exact behind

end Loop

/-! ## The first component of a kind -/

section Deciding

theorem assign_closed {limit : Limit} (closed : limit.isOpen = false) (t : List Char) :
    limit.assign t = limit := by
  rw [Limit.assign, closed, if_neg Bool.false_ne_true]

theorem isOpen_assign (limit : Limit) (t : List Char) : (limit.assign t).isOpen = false := by
  cases opened : limit.isOpen with
  | true => rw [Limit.assign, opened, if_pos rfl]
  | false => rw [assign_closed opened, opened]

theorem elim_closed {limit : Limit} (closed : limit.isOpen = false)
    (component : Option (List Char)) : component.elim limit limit.assign = limit := by
  cases component with
  | none => rfl
  | some t => exact assign_closed closed t

theorem endsIn_unique {component : List Char} (size : endsIn 'S' component = true) :
    endsIn 'C' component = false := by
  rw [endsIn, of_decide_eq_true size]
  rfl

theorem sizeComponent_cons (component : List Char) {components : List (List Char)}
    (more : components ≠ []) :
    sizeComponent (component :: components) =
      if endsIn 'S' component then some component else sizeComponent components := by
  rw [sizeComponent, List.find?_cons, List.getLast?_cons_of_ne_nil more, sizeComponent]
  cases endsIn 'S' component <;> rfl

theorem countComponent_cons (component : List Char) (components : List (List Char)) :
    countComponent (component :: components) =
      if endsIn 'C' component then some component else countComponent components := by
  rw [countComponent, List.find?_cons, countComponent]
  cases endsIn 'C' component <;> rfl

theorem size_readAll (components : List (List Char)) (limits : Limits) :
    (Limits.readAll components limits).size =
      (sizeComponent components).elim limits.size limits.size.assign := by
  induction components generalizing limits with
  | nil => rfl
  | cons component components induction =>
      cases components with
      | nil =>
          rw [Limits.readAll, Limits.read, sizeComponent, List.find?_cons]
          cases size : endsIn 'S' component with
          | true => rfl
          | false =>
              rw [List.find?_nil, List.getLast?_singleton, Option.filter_some]
              cases endsIn 'C' component <;> rfl
      | cons next components =>
          rw [readAll_cons _ (List.cons_ne_nil _ _), induction,
            sizeComponent_cons _ (List.cons_ne_nil _ _), Limits.read]
          cases size : endsIn 'S' component with
          | true => exact elim_closed (isOpen_assign _ _) _
          | false => cases endsIn 'C' component <;> rfl

theorem count_readAll (components : List (List Char)) (limits : Limits) :
    (Limits.readAll components limits).count =
      (countComponent components).elim limits.count limits.count.assign := by
  induction components generalizing limits with
  | nil => rfl
  | cons component components induction =>
      have step : ∀ ended, (countComponent components).elim (limits.read ended component).count
          (limits.read ended component).count.assign =
          (countComponent (component :: components)).elim limits.count limits.count.assign := by
        intro ended
        rw [countComponent_cons, Limits.read]
        cases size : endsIn 'S' component with
        | true =>
            rw [endsIn_unique size]
            rfl
        | false =>
            cases endsIn 'C' component with
            | true => exact elim_closed (isOpen_assign _ _) _
            | false => cases ended <;> rfl
      cases components with
      | nil => exact step true
      | cons next components =>
          rw [readAll_cons _ (List.cons_ne_nil _ _), induction]
          exact step false

/-- What is stored of a number: minus one is not. -/
def stored (value : BitVec 64) : BitVec 64 := if value ≠ -1 then value else 0

theorem stored_eq_iff (value : BitVec 64) : stored value = value ↔ value ≠ -1 := by
  by_cases minus : value = -1
  · rw [minus]
    decide
  · rw [stored, if_pos minus]
    exact iff_of_true rfl minus

theorem stored_number_iff (component : Option (List Char)) :
    stored (number component) = number component ↔
      ∀ deciding, component = some deciding → strtoll deciding ≠ -1 := by
  rw [stored_eq_iff]
  cases component with
  | none => exact iff_of_true (by decide) (fun _ impossible => nomatch impossible)
  | some component =>
      simp only [Option.some.injEq, forall_eq']
      exact Iff.rfl

theorem value_assign (component : Option (List Char)) :
    (component.elim (⟨0, true⟩ : Limit) (Limit.assign ⟨0, true⟩)).value =
      stored (number component) := by
  cases component <;> rfl

end Deciding

theorem quotaMtos_eq {quota : List Char} (begun : quota ≠ [] ∧ quota.head? ≠ some ',') :
    quotaMtos quota = .ok (stored (number (sizeComponent (components quota))),
      stored (number (countComponent (components quota)))) := by
  rw [quotaMtos, mtosLoop_eq (Nat.lt_succ_self _) (.inl begun)]
  simp only [Except.map, size_readAll, count_readAll, value_assign]

/-- An empty first component is looked at from in front of the string. -/
theorem quotaMtos_error {quota : List Char} (empty : ¬(quota ≠ [] ∧ quota.head? ≠ some ',')) :
    quotaMtos quota = .error .outOfBounds := by
  cases quota with
  | nil => rfl
  | cons char quota =>
      have comma : char = ',' := by
        by_contra other
        exact empty ⟨List.cons_ne_nil _ _, fun equal => other (Option.some.inj equal)⟩
      rw [quotaMtos, mtosLoop, if_pos comma]
      rfl

/-- The limits of a quota. -/
def limitsOf (quota : List Char) : BitVec 64 × BitVec 64 :=
  (number (sizeComponent (components quota)), number (countComponent (components quota)))

/-- The first component of each kind decides, unless it reads as the number minus one, if the
string starts with a component. -/
theorem quotaMtos_firstMatch_iff (quota : List Char) :
    quotaMtos quota = .ok (limitsOf quota) ↔
      (quota ≠ [] ∧ quota.head? ≠ some ',') ∧
        (∀ component, sizeComponent (components quota) = some component →
          strtoll component ≠ -1) ∧
        ∀ component, countComponent (components quota) = some component →
          strtoll component ≠ -1 := by
  by_cases begun : quota ≠ [] ∧ quota.head? ≠ some ','
  · rw [quotaMtos_eq begun, limitsOf, Except.ok.injEq, Prod.mk.injEq, stored_number_iff,
      stored_number_iff]
    exact (and_iff_right begun).symm
  · rw [quotaMtos_error begun]
    exact iff_of_false (fun impossible => nomatch impossible) fun all => begun all.1

/-- The empty string, whose limits are zero, is read from in front of its first character. -/
theorem quotaMtos_empty : quotaMtos [] ≠ .ok (limitsOf []) :=
  fun impossible => nomatch impossible

end Vpopmail.Maildirquota

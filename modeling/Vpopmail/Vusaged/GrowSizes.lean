import Mathlib.Algebra.Group.Nat.Defs
import Vpopmail.Foundation.Buffer
import Vpopmail.Vusaged.Grow

/-! # Growing buffers with sizes of 64 bits

The functions of `grow.c` over an allocation that is written cell by cell, with sums that wrap
around. As long as none of them does, they are the functions over all numbers.
-/

namespace Vpopmail.Vusaged.SizeT

open Buffer

/-- A sum as a `size_t`. -/
def sizeT (sum : Nat) : Nat := sum % 2 ^ 64

/-- `grow_t`, with whatever allocation `data` points to. -/
structure State where
  data : List UInt8
  bytes : Nat
  size : Nat
  grow : Nat
  deriving DecidableEq

def State.contents (g : State) : List UInt8 := g.data.take g.bytes

def write (data : List UInt8) (position : Nat) (written : List UInt8) : Checked (List UInt8) :=
  if position + written.length ≤ data.length then .ok (overwrite data position written)
  else .error .outOfBounds

/-- What `memmove` takes. -/
def read (data : List UInt8) (start count : Nat) : Checked (List UInt8) :=
  if start + count ≤ data.length then .ok ((data.drop start).take count)
  else .error .outOfBounds

variable (fresh : Nat → UInt8)

def malloc (size : Nat) : List UInt8 := (List.range size).map fresh

def realloc (data : List UInt8) (size : Nat) : List UInt8 :=
  (data ++ malloc fresh (size - data.length)).take size

/-- The size `grow_init` takes for an argument. -/
def firstSize (size : UInt64) : Nat := if size.toNat = 0 then growBufferSize else size.toNat

/-- `grow_init` of what `grow_alloc` returns, without a buffer of the caller's. -/
def growInit (size : UInt64) : Checked State :=
  let s := firstSize size
  (write (malloc fresh (sizeT (s + 1))) 0 [0]).map fun data => ⟨data, 0, s, growBufferAdd⟩

/-- The `memcpy` and the terminator at the end of `grow_inject`. -/
def State.store (g : State) (data : List UInt8) : Checked State :=
  (write g.data g.bytes data).bind fun copied =>
    (write copied (sizeT (g.bytes + data.length)) [0]).map fun cells =>
      { g with data := cells, bytes := sizeT (g.bytes + data.length) }

/-- What `grow_inject` makes the buffer longer by. -/
def addum (g : State) (bytes : Nat) : Nat :=
  if g.grow < sizeT (g.bytes + bytes) - g.size then
    sizeT (sizeT (g.bytes + bytes) - g.size + g.grow + 1)
  else g.grow

def growInject (g : State) (data : List UInt8) : Checked State :=
  if g.size < sizeT (g.bytes + data.length) then
    let more := addum g data.length
    State.store { g with
      data := realloc fresh g.data (sizeT (g.size + more + 1))
      size := sizeT (g.size + more) } data
  else g.store data

def growRestart (g : State) : Checked State :=
  if g.bytes = 0 then .ok g
  else (write g.data 0 [0]).map fun cells => { g with data := cells, bytes := 0 }

/-- `grow_cut`, with nothing for a zero returned. -/
def growCut (g : State) (len : Nat) : Checked (Option State) :=
  if g.bytes < len then .ok none
  else if len = g.bytes then (growRestart g).map some
  else
    (read g.data len (g.bytes - len)).bind fun moved =>
      (write g.data 0 moved).bind fun cells =>
        (write cells (g.bytes - len) [0]).map fun cells =>
          some { g with data := cells, bytes := g.bytes - len }

/-! ## Calls one after the other -/

inductive Operation
  | inject (data : List UInt8) (counted : data.length < 2 ^ 64)
  | cut (len : UInt64)
  | restart

def step (g : State) : Operation → Checked State
  | .inject data _ => growInject fresh g data
  | .cut len => (growCut g len.toNat).map fun cut => cut.getD g
  | .restart => growRestart g

def steps (g : State) : List Operation → Checked State
  | [] => .ok g
  | operation :: operations => (step fresh g operation).bind fun g => steps g operations

/-- The calls from `grow_init` on. -/
def run (size : UInt64) (operations : List Operation) : Checked State :=
  (growInit fresh size).bind fun g => steps fresh g operations

/-- What a queue of bytes holds after a call. -/
def queued (queue : List UInt8) : Operation → List UInt8
  | .inject data _ => queue ++ data
  | .cut len => if queue.length < len.toNat then queue else queue.drop len.toNat
  | .restart => []

/-- After all of the calls up to any point the buffer is the queue, and no write went
outside the allocation. -/
def IsQueue (size : UInt64) (operations : List Operation) : Prop :=
  ∀ done, done <+: operations → ∃ g, run fresh size done = .ok g ∧
    g.contents = done.foldl queued [] ∧ g.bytes ≤ g.size

/-- The size that putting `count` bytes behind `bytes` in use makes of a size, if the numbers
have no end. -/
def enlarged (bytes size count : Nat) : Nat :=
  if bytes + count ≤ size then size
  else if growBufferAdd < bytes + count - size then bytes + count + growBufferAdd + 1
  else size + growBufferAdd

/-- The size after a call, if the numbers have no end. -/
def enlargedBy (bytes size : Nat) : Operation → Nat
  | .inject data _ => enlarged bytes size data.length
  | _ => size

/-- The number of bytes in use after a call. -/
def bytesAfter (bytes : Nat) : Operation → Nat
  | .inject data _ => bytes + data.length
  | .cut len => if bytes < len.toNat then bytes else bytes - len.toNat
  | .restart => 0

/-- The size a buffer comes to in the end, if the numbers have no end. -/
def sizeAfter : (bytes size : Nat) → List Operation → Nat
  | _, size, [] => size
  | bytes, size, operation :: operations =>
      sizeAfter (bytesAfter bytes operation) (enlargedBy bytes size operation) operations

/-! ## The same calls over all numbers -/

/-- A buffer that keeps its invariant, as it is in memory. -/
def state (g : Grow) : State := ⟨g.data, g.bytes, g.size, g.grow⟩

def unboundedStep (g : Grow) : Operation → Grow
  | .inject data _ => Vusaged.growInject fresh g data
  | .cut len => (Vusaged.growCut g len.toNat).getD g
  | .restart => Vusaged.growRestart g

/-- A buffer that grows by the constant, and to a size that can be allocated. -/
structure Sized (g : Grow) : Prop where
  grow : g.grow = growBufferAdd
  allocated : g.size + 1 < 2 ^ 64

section

variable {fresh} {g : Grow} {data written behind : List UInt8} {position : Nat}

theorem sizeT_of_lt {sum : Nat} (small : sum < 2 ^ 64) : sizeT sum = sum := Nat.mod_eq_of_lt small

theorem sizeT_of_le {sum : Nat} (large : 2 ^ 64 ≤ sum) (twice : sum < 2 ^ 64 + 2 ^ 64) :
    sizeT sum = sum - 2 ^ 64 := by
  rw [sizeT, Nat.mod_eq_sub_mod large]
  exact Nat.mod_eq_of_lt (by omega)

theorem write_of_inside (inside : position + written.length ≤ data.length) :
    write data position written = .ok (overwrite data position written) :=
  if_pos inside

theorem write_of_outside (outside : data.length < position + written.length) :
    write data position written = .error .outOfBounds :=
  if_neg (Nat.not_le.mpr outside)

/-- Two writes, one behind the other, are one. -/
theorem overwrite_overwrite (inside : position + written.length ≤ data.length) :
    overwrite (overwrite data position written) (position + written.length) behind =
      overwrite data position (written ++ behind) := by
  have size : (data.take position ++ written).length = position + written.length := by
    rw [List.length_append, List.length_take_of_le (by omega)]
  have front : (overwrite data position written).take (position + written.length) =
      data.take position ++ written := List.take_left' size
  have rest : (overwrite data position written).drop (position + written.length + behind.length) =
      data.drop (position + (written ++ behind).length) := by
    rw [overwrite, ← size, List.drop_length_add_append, List.drop_drop, size, List.length_append,
      Nat.add_assoc]
  rw [overwrite, front, rest, overwrite, List.append_assoc (data.take position)]

theorem state_store (room : g.bytes + data.length ≤ g.size) (allocated : g.size + 1 < 2 ^ 64) :
    (state g).store data = .ok (state (g.store data room)) := by
  have cells := g.cells
  have sum : sizeT (g.bytes + data.length) = g.bytes + data.length := sizeT_of_lt (by omega)
  have copied : write g.data g.bytes data = .ok (overwrite g.data g.bytes data) :=
    write_of_inside (by omega)
  have copiedLength : (overwrite g.data g.bytes data).length = g.data.length :=
    overwrite_length (by omega)
  have terminated : write (overwrite g.data g.bytes data) (g.bytes + data.length) [0] =
      .ok (overwrite g.data g.bytes (data ++ [0])) := by
    rw [write_of_inside, overwrite_overwrite (by omega)]
    rw [copiedLength, List.length_singleton]
    omega
  change (write g.data g.bytes data).bind _ = _
  rw [copied, Except.bind, state, sum, terminated]
  rfl

theorem store_outside {g : State} (outside : g.data.length < g.bytes + data.length) :
    g.store data = .error .outOfBounds := by
  rw [State.store, write_of_outside outside]
  rfl

theorem realloc_of_longer (more : Nat) :
    realloc fresh data (data.length + more) = data ++ malloc fresh more := by
  have length : (data ++ malloc fresh more).length = data.length + more := by
    rw [List.length_append, malloc, List.length_map, List.length_range]
  rw [realloc, Nat.add_sub_cancel_left, List.take_of_length_le (Nat.le_of_eq length)]

theorem length_realloc (size : Nat) : (realloc fresh data size).length = size := by
  rw [realloc, malloc, List.length_take, List.length_append, List.length_map, List.length_range]
  omega

theorem size_add_addum (grows : g.grow = growBufferAdd) {count : Nat}
    (long : ¬g.bytes + count ≤ g.size) :
    g.size + Vusaged.addum g count = enlarged g.bytes g.size count := by
  rw [Vusaged.addum, enlarged, if_neg long, grows]
  split <;> omega

theorem size_growInject (grows : g.grow = growBufferAdd) :
    (Vusaged.growInject fresh g data).size = enlarged g.bytes g.size data.length := by
  unfold Vusaged.growInject
  split
  · next room => exact (if_pos room).symm
  · next long => exact size_add_addum grows long

theorem grow_growInject : (Vusaged.growInject fresh g data).grow = g.grow := by
  unfold Vusaged.growInject
  split <;> rfl

theorem sizeT_add_sizeT (sum addend : Nat) : sizeT (sum + sizeT addend) = sizeT (sum + addend) :=
  Nat.add_mod_mod sum addend _

/-- Wrapping around in between makes no difference to a sum. -/
theorem sizeT_addum (grows : g.grow = growBufferAdd) {count : Nat}
    (total : g.bytes + count < 2 ^ 64) (long : ¬g.bytes + count ≤ g.size) (more : Nat) :
    sizeT (g.size + addum (state g) count + more) =
      sizeT (enlarged g.bytes g.size count + more) := by
  have sum : sizeT (g.bytes + count) = g.bytes + count := sizeT_of_lt total
  have wrapped : sizeT (addum (state g) count) = sizeT (Vusaged.addum g count) := by
    change sizeT (if g.grow < sizeT (g.bytes + count) - g.size then
      sizeT (sizeT (g.bytes + count) - g.size + g.grow + 1) else g.grow) = _
    rw [sum, Vusaged.addum]
    split
    · exact Nat.mod_mod _ _
    · rfl
  rw [← size_add_addum grows long, Nat.add_right_comm, Nat.add_right_comm _ _ more,
    ← sizeT_add_sizeT, wrapped, sizeT_add_sizeT]

theorem growInject_of_room (room : g.bytes + data.length ≤ g.size)
    (allocated : g.size + 1 < 2 ^ 64) :
    growInject fresh (state g) data = .ok (state (Vusaged.growInject fresh g data)) := by
  have sum : sizeT (g.bytes + data.length) = g.bytes + data.length := sizeT_of_lt (by omega)
  have inside : ¬(state g).size < sizeT ((state g).bytes + data.length) := by
    change ¬g.size < sizeT (g.bytes + data.length)
    omega
  rw [growInject, if_neg inside, state_store room allocated, Vusaged.growInject, dif_pos room]

/-- A buffer that is too small is made as large as it would be if the numbers had no end, less
what wraps around. -/
theorem growInject_of_long (grows : g.grow = growBufferAdd)
    (total : g.bytes + data.length < 2 ^ 64) (long : ¬g.bytes + data.length ≤ g.size) :
    growInject fresh (state g) data = State.store { state g with
      data := realloc fresh g.data (sizeT (enlarged g.bytes g.size data.length + 1))
      size := sizeT (enlarged g.bytes g.size data.length) } data := by
  have sum : sizeT (g.bytes + data.length) = g.bytes + data.length := sizeT_of_lt total
  have outside : (state g).size < sizeT ((state g).bytes + data.length) := by
    change g.size < sizeT (g.bytes + data.length)
    omega
  have size := sizeT_addum grows total long 0
  have allocation := sizeT_addum grows total long 1
  rw [growInject, if_pos outside]
  change State.store { state g with
      data := realloc fresh g.data (sizeT (g.size + addum (state g) data.length + 1))
      size := sizeT (g.size + addum (state g) data.length + 0) } data = _
  rw [size, allocation]
  rfl

/-- What is needed when the buffer is too small. -/
theorem le_enlarged {bytes size count : Nat} (long : ¬bytes + count ≤ size) :
    bytes + count ≤ enlarged bytes size count ∧
      enlarged bytes size count ≤ bytes + count + growBufferAdd + 1 := by
  rw [enlarged, if_neg long]
  split <;> omega

/-- As long as the size that is needed can be allocated, no sum wraps around. -/
theorem growInject_state (grows : g.grow = growBufferAdd)
    (allocated : enlarged g.bytes g.size data.length + 1 < 2 ^ 64) :
    growInject fresh (state g) data = .ok (state (Vusaged.growInject fresh g data)) := by
  have cells := g.cells
  by_cases room : g.bytes + data.length ≤ g.size
  · rw [enlarged, if_pos room] at allocated
    exact growInject_of_room room allocated
  · have bounds := le_enlarged room
    have size := size_add_addum grows room
    have longer : enlarged g.bytes g.size data.length + 1 =
        g.data.length + Vusaged.addum g data.length := by omega
    rw [growInject_of_long grows (by omega) room, sizeT_of_lt allocated,
      sizeT_of_lt (Nat.lt_of_succ_lt allocated), longer, realloc_of_longer, ← size,
      Vusaged.growInject, dif_neg room]
    have grown : (g.realloc fresh (Vusaged.addum g data.length)).size + 1 < 2 ^ 64 := by
      change g.size + Vusaged.addum g data.length + 1 < 2 ^ 64
      rwa [size]
    exact state_store (le_addum g data.length) grown

/-- Otherwise one does, and the copy goes outside the allocation. -/
theorem growInject_outside (sized : Sized g) (counted : data.length < 2 ^ 64)
    (large : 2 ^ 64 ≤ enlarged g.bytes g.size data.length + 1) :
    growInject fresh (state g) data = .error .outOfBounds := by
  have cells := g.cells
  have fits := g.fits
  have allocated := sized.allocated
  have constant : growBufferAdd = 2048 := rfl
  by_cases room : g.bytes + data.length ≤ g.size
  · rw [enlarged, if_pos room] at large
    omega
  · have bounds := le_enlarged room
    by_cases total : g.bytes + data.length < 2 ^ 64
    · rw [growInject_of_long sized.grow total room]
      apply store_outside
      change (realloc fresh g.data _).length < g.bytes + data.length
      rw [length_realloc, sizeT_of_le large (by omega)]
      omega
    · have sum : sizeT (g.bytes + data.length) = g.bytes + data.length - 2 ^ 64 :=
        sizeT_of_le (Nat.not_lt.mp total) (by omega)
      have inside : ¬(state g).size < sizeT ((state g).bytes + data.length) := by
        change ¬g.size < sizeT (g.bytes + data.length)
        omega
      rw [growInject, if_neg inside]
      apply store_outside
      change g.data.length < g.bytes + data.length
      omega

theorem growRestart_state : growRestart (state g) = .ok (state (Vusaged.growRestart g)) := by
  have cells := g.cells
  unfold growRestart Vusaged.growRestart
  by_cases empty : g.bytes = 0
  · rw [if_pos (show (state g).bytes = 0 from empty), if_pos empty]
  · have terminated : write (state g).data 0 [0] = .ok (overwrite g.data 0 [0]) :=
      write_of_inside (by change 0 + 1 ≤ g.data.length; omega)
    rw [if_neg (show ¬(state g).bytes = 0 from empty), if_neg empty, terminated]
    rfl

theorem growCut_state (len : Nat) :
    growCut (state g) len = .ok ((Vusaged.growCut g len).map state) := by
  have cells := g.cells
  have fits := g.fits
  have bytes : (state g).bytes = g.bytes := rfl
  unfold growCut Vusaged.growCut
  rw [bytes]
  split
  · rfl
  split
  · rw [growRestart_state]
    rfl
  · next outside all =>
      have rest : (g.contents.drop len).length = g.bytes - len := by
        rw [List.length_drop, g.contents_length]
      have taken : read (state g).data len (g.bytes - len) = .ok (g.contents.drop len) := by
        have same : (g.data.drop len).take (g.bytes - len) = g.contents.drop len := by
          rw [Grow.contents, List.drop_take]
        change read g.data len (g.bytes - len) = _
        rw [read, if_pos (by omega), same]
      have moved : write g.data 0 (g.contents.drop len) =
          .ok (overwrite g.data 0 (g.contents.drop len)) := write_of_inside (by omega)
      have movedLength : (overwrite g.data 0 (g.contents.drop len)).length = g.data.length :=
        overwrite_length (by omega)
      have terminated : write (overwrite g.data 0 (g.contents.drop len)) (g.bytes - len) [0] =
          .ok (overwrite g.data 0 (g.contents.drop len ++ [0])) := by
        have joined := @overwrite_overwrite g.data (g.contents.drop len) [0] 0 (by omega)
        rw [rest, Nat.zero_add] at joined
        rw [write_of_inside, joined]
        rw [movedLength, List.length_singleton]
        omega
      rw [taken]
      change (write g.data 0 (g.contents.drop len)).bind _ = _
      rw [moved]
      change (write (overwrite g.data 0 (g.contents.drop len)) (g.bytes - len) [0]).map _ = _
      rw [terminated]
      rfl

/-! ## A step, and a run -/

theorem size_growRestart : (Vusaged.growRestart g).size = g.size := by
  unfold Vusaged.growRestart
  split <;> rfl

theorem grow_growRestart : (Vusaged.growRestart g).grow = g.grow := by
  unfold Vusaged.growRestart
  split <;> rfl

theorem size_growCut {cut : Grow} {len : Nat} (done : Vusaged.growCut g len = some cut) :
    cut.size = g.size ∧ cut.grow = g.grow := by
  unfold Vusaged.growCut at done
  split at done
  · cases done
  split at done
  · cases done
    exact ⟨size_growRestart, grow_growRestart⟩
  · cases done
    exact ⟨rfl, rfl⟩

variable {operation : Operation} {operations : List Operation}

theorem grow_unboundedStep : (unboundedStep fresh g operation).grow = g.grow := by
  cases operation with
  | inject data counted => exact grow_growInject
  | cut len =>
      cases done : Vusaged.growCut g len.toNat with
      | none =>
          rw [unboundedStep, done]
          rfl
      | some cut =>
          rw [unboundedStep, done]
          exact (size_growCut done).2
  | restart => exact grow_growRestart

theorem size_unboundedStep (grows : g.grow = growBufferAdd) :
    (unboundedStep fresh g operation).size = enlargedBy g.bytes g.size operation := by
  cases operation with
  | inject data counted => exact size_growInject grows
  | cut len =>
      cases done : Vusaged.growCut g len.toNat with
      | none =>
          rw [unboundedStep, done]
          rfl
      | some cut =>
          rw [unboundedStep, done]
          exact (size_growCut done).1
  | restart => exact size_growRestart

theorem contents_unboundedStep :
    (unboundedStep fresh g operation).contents = queued g.contents operation := by
  cases operation with
  | inject data counted => exact contents_growInject fresh g data
  | cut len =>
      rw [unboundedStep, queued, g.contents_length]
      by_cases outside : g.bytes < len.toNat
      · have refused : Vusaged.growCut g len.toNat = none := if_pos outside
        rw [refused, if_pos outside]
        rfl
      · rcases growCut_of_le g len.toNat (Nat.not_lt.mp outside) with ⟨cut, done⟩
        rw [done, if_neg outside]
        exact contents_growCut done
  | restart => exact contents_growRestart g

theorem bytes_unboundedStep : (unboundedStep fresh g operation).bytes =
    bytesAfter g.bytes operation := by
  rw [← Grow.contents_length, contents_unboundedStep]
  cases operation with
  | inject data counted => rw [queued, List.length_append, g.contents_length, bytesAfter]
  | cut len =>
      rw [queued, g.contents_length, bytesAfter]
      split
      · exact g.contents_length
      · rw [List.length_drop, g.contents_length]
  | restart => rfl

theorem size_le_enlarged (bytes size count : Nat) : size ≤ enlarged bytes size count := by
  unfold enlarged
  split
  · exact Nat.le_refl _
  split <;> omega

theorem size_le_enlargedBy (bytes size : Nat) (operation : Operation) :
    size ≤ enlargedBy bytes size operation := by
  cases operation with
  | inject data counted => exact size_le_enlarged _ _ _
  | cut len => exact Nat.le_refl _
  | restart => exact Nat.le_refl _

theorem le_sizeAfter (bytes size : Nat) : size ≤ sizeAfter bytes size operations := by
  induction operations generalizing bytes size with
  | nil => exact Nat.le_refl _
  | cons operation operations induction =>
      exact Nat.le_trans (size_le_enlargedBy bytes size operation) (induction _ _)

theorem sizeAfter_of_before {done : List Operation} (before : done <+: operations)
    (bytes size : Nat) : sizeAfter bytes size done ≤ sizeAfter bytes size operations := by
  rcases before with ⟨later, rfl⟩
  induction done generalizing bytes size with
  | nil => exact le_sizeAfter bytes size
  | cons operation done induction => exact induction _ _

theorem step_state (sized : Sized g)
    (allocated : (unboundedStep fresh g operation).size + 1 < 2 ^ 64) :
    step fresh (state g) operation = .ok (state (unboundedStep fresh g operation)) := by
  cases operation with
  | inject data counted =>
      rw [size_unboundedStep sized.grow] at allocated
      exact growInject_state sized.grow allocated
  | cut len =>
      rw [step, growCut_state, unboundedStep]
      cases Vusaged.growCut g len.toNat <;> rfl
  | restart => exact growRestart_state

theorem step_outside (sized : Sized g)
    (large : 2 ^ 64 ≤ (unboundedStep fresh g operation).size + 1) :
    step fresh (state g) operation = .error .outOfBounds := by
  rw [size_unboundedStep sized.grow] at large
  cases operation with
  | inject data counted => exact growInject_outside sized counted large
  | cut len => exact absurd sized.allocated (Nat.not_lt.mpr large)
  | restart => exact absurd sized.allocated (Nat.not_lt.mpr large)

theorem size_unbounded (grows : g.grow = growBufferAdd) :
    (operations.foldl (unboundedStep fresh) g).size = sizeAfter g.bytes g.size operations := by
  induction operations generalizing g with
  | nil => rfl
  | cons operation operations induction =>
      rw [List.foldl_cons, induction (grow_unboundedStep.trans grows), bytes_unboundedStep,
        size_unboundedStep grows, sizeAfter]

theorem contents_unbounded :
    (operations.foldl (unboundedStep fresh) g).contents = operations.foldl queued g.contents := by
  induction operations generalizing g with
  | nil => rfl
  | cons operation operations induction =>
      rw [List.foldl_cons, induction, contents_unboundedStep, List.foldl_cons]

/-- A run in which no sum wraps around is one over all numbers. -/
theorem steps_state (sized : Sized g)
    (allocated : (operations.foldl (unboundedStep fresh) g).size + 1 < 2 ^ 64) :
    steps fresh (state g) operations = .ok (state (operations.foldl (unboundedStep fresh) g)) := by
  induction operations generalizing g with
  | nil => rfl
  | cons operation operations induction =>
      have grows : (unboundedStep fresh g operation).grow = growBufferAdd :=
        grow_unboundedStep.trans sized.grow
      have later := @size_unbounded fresh (unboundedStep fresh g operation) operations grows
      have next : (unboundedStep fresh g operation).size + 1 < 2 ^ 64 := by
        rw [List.foldl_cons, later] at allocated
        exact Nat.lt_of_le_of_lt (Nat.succ_le_succ (le_sizeAfter _ _)) allocated
      rw [steps, step_state sized next]
      exact induction ⟨grows, next⟩ allocated

/-- In any other run there is a write outside the allocation. -/
theorem steps_outside (sized : Sized g)
    (large : 2 ^ 64 ≤ (operations.foldl (unboundedStep fresh) g).size + 1) :
    steps fresh (state g) operations = .error .outOfBounds := by
  induction operations generalizing g with
  | nil => exact absurd sized.allocated (Nat.not_lt.mpr large)
  | cons operation operations induction =>
      by_cases next : (unboundedStep fresh g operation).size + 1 < 2 ^ 64
      · rw [steps, step_state sized next]
        exact induction ⟨grow_unboundedStep.trans sized.grow, next⟩ large
      · rw [steps, step_outside sized (Nat.not_lt.mp next)]
        rfl

end

/-! ## From `grow_init` on -/

section

variable {fresh} {size : UInt64} {operations : List Operation}

/-- The buffer that `grow_init` sets up. -/
def first (fresh : Nat → UInt8) (size : UInt64) : Grow :=
  Vusaged.growInit (fun position => fresh (position + 1)) size.toNat

theorem growInit_state (allocated : firstSize size + 1 < 2 ^ 64) :
    growInit fresh size = .ok (state (first fresh size)) := by
  have cells : malloc fresh (firstSize size + 1) =
      fresh 0 :: (List.range (firstSize size)).map fun position => fresh (position + 1) := by
    rw [malloc, List.range_succ_eq_map, List.map_cons, List.map_map]
    rfl
  rw [growInit, sizeT_of_lt allocated, cells]
  rfl

theorem growInit_outside (large : 2 ^ 64 ≤ firstSize size + 1) :
    growInit fresh size = .error .outOfBounds := by
  have below := size.toNat_lt
  have bound : firstSize size < 2 ^ 64 := by
    unfold firstSize
    split
    · decide
    · exact below
  have none_ : sizeT (firstSize size + 1) = 0 := by
    rw [sizeT_of_le large (by omega)]
    omega
  rw [growInit, none_]
  rfl

theorem sized_first (allocated : firstSize size + 1 < 2 ^ 64) : Sized (first fresh size) :=
  ⟨rfl, allocated⟩

theorem run_state (allocated : sizeAfter 0 (firstSize size) operations + 1 < 2 ^ 64) :
    run fresh size operations =
      .ok (state (operations.foldl (unboundedStep fresh) (first fresh size))) := by
  have same := @size_unbounded fresh (first fresh size) operations rfl
  have begun : firstSize size + 1 < 2 ^ 64 :=
    Nat.lt_of_le_of_lt (Nat.succ_le_succ (le_sizeAfter 0 _)) allocated
  rw [run, growInit_state begun]
  exact steps_state (sized_first begun) (same ▸ allocated)

theorem run_outside (large : 2 ^ 64 ≤ sizeAfter 0 (firstSize size) operations + 1) :
    run fresh size operations = .error .outOfBounds := by
  have same := @size_unbounded fresh (first fresh size) operations rfl
  by_cases begun : firstSize size + 1 < 2 ^ 64
  · rw [run, growInit_state begun]
    exact steps_outside (sized_first begun) (same ▸ large)
  · rw [run, growInit_outside (Nat.not_lt.mp begun)]
    rfl

/-- The buffer is the queue just as long as the size it comes to can be allocated. -/
theorem isQueue_iff (fresh : Nat → UInt8) (size : UInt64) (operations : List Operation) :
    IsQueue fresh size operations ↔ sizeAfter 0 (firstSize size) operations + 1 < 2 ^ 64 := by
  constructor
  · intro queue
    rcases queue operations (List.prefix_refl _) with ⟨g, ran, -⟩
    apply Nat.not_le.mp
    intro large
    rw [run_outside large] at ran
    cases ran
  · intro allocated done before
    have earlier := Nat.lt_of_le_of_lt (Nat.succ_le_succ (sizeAfter_of_before before 0 _)) allocated
    refine ⟨_, run_state earlier, ?_, ?_⟩
    · exact contents_unbounded
    · exact Grow.fits _

/-- With the largest size there is, nothing is allocated. -/
theorem not_isQueue : ¬∀ fresh size operations, IsQueue fresh size operations := by
  intro queue
  rcases queue (fun _ => 0) (-1) [] [] (List.prefix_refl _) with ⟨g, ran, -⟩
  rw [run_outside (by decide)] at ran
  cases ran

end

end Vpopmail.Vusaged.SizeT

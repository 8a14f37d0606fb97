import Mathlib.Data.List.Basic
import Mathlib.Data.List.TakeWhile

/-! # Growing buffers

The buffers the usage daemon collects its clients' bytes in, from `grow.c`. The
cells of the allocation are kept as they are in memory: the bytes in use, the
terminator behind them and whatever else the allocation holds.
-/

namespace Vpopmail.Vusaged

def growBufferSize : Nat := 2048

def growBufferAdd : Nat := 2048

/-- Writes some cells over those from a position on. -/
def overwrite (cells : List UInt8) (position : Nat) (written : List UInt8) : List UInt8 :=
  cells.take position ++ written ++ cells.drop (position + written.length)

theorem overwrite_length {cells written : List UInt8} {position : Nat}
    (fits : position + written.length ≤ cells.length) :
    (overwrite cells position written).length = cells.length := by
  simp only [overwrite, List.length_append, List.length_take, List.length_drop]
  omega

theorem take_overwrite {cells : List UInt8} {position : Nat} (fits : position ≤ cells.length)
    (written behind : List UInt8) :
    (overwrite cells position (written ++ behind)).take (position + written.length) =
      cells.take position ++ written := by
  have size : (cells.take position ++ written).length = position + written.length := by
    rw [List.length_append, List.length_take_of_le fits]
  rw [overwrite, ← List.append_assoc, List.append_assoc _ behind, ← size, List.take_left']
  rfl

/-- `grow_t`. -/
structure Grow where
  data : List UInt8
  bytes : Nat
  size : Nat
  grow : Nat
  cells : data.length = size + 1
  fits : bytes ≤ size
  terminated : data[bytes]? = some 0

namespace Grow

variable (g : Grow)

/-- The bytes in use. -/
def contents : List UInt8 := g.data.take g.bytes

@[simp] theorem contents_length : g.contents.length = g.bytes := by
  have cells := g.cells
  have fits := g.fits
  rw [contents, List.length_take_of_le (by omega)]

/-- A terminator stands behind the bytes in use. -/
theorem data_eq : ∃ beyond, g.data = g.contents ++ 0 :: beyond := by
  rcases List.getElem?_eq_some_iff.mp g.terminated with ⟨inside, cell⟩
  refine ⟨g.data.drop (g.bytes + 1), ?_⟩
  rw [contents, ← cell, ← List.drop_eq_getElem_cons inside, List.take_append_drop]

end Grow

variable (fresh : Nat → UInt8)

/-- `grow_init` without a buffer of the caller's; `malloc` leaves `fresh` in the cells. -/
def growInit (size : Nat) : Grow where
  data := 0 :: (List.range (if size = 0 then growBufferSize else size)).map fresh
  bytes := 0
  size := if size = 0 then growBufferSize else size
  grow := growBufferAdd
  cells := by simp
  fits := Nat.zero_le _
  terminated := rfl

/-- The longer allocation `realloc` returns. -/
def Grow.realloc (g : Grow) (addum : Nat) : Grow where
  data := g.data ++ (List.range addum).map fresh
  bytes := g.bytes
  size := g.size + addum
  grow := g.grow
  cells := by rw [List.length_append, g.cells, List.length_map, List.length_range]; omega
  fits := Nat.le_trans g.fits (Nat.le_add_right _ _)
  terminated := by
    have cells := g.cells
    have fits := g.fits
    rw [List.getElem?_append_left (by omega), g.terminated]

/-- The `memcpy` and the terminator at the end of `grow_inject`. -/
def Grow.store (g : Grow) (data : List UInt8) (room : g.bytes + data.length ≤ g.size) : Grow where
  data := overwrite g.data g.bytes (data ++ [0])
  bytes := g.bytes + data.length
  size := g.size
  grow := g.grow
  cells := by
    have cells := g.cells
    rw [overwrite_length (by simp only [List.length_append, List.length_singleton]; omega), cells]
  fits := room
  terminated := by
    have cells := g.cells
    have before : (g.data.take g.bytes).length = g.bytes :=
      List.length_take_of_le (by omega)
    rw [overwrite, List.append_assoc, List.append_assoc,
      List.getElem?_append_right (by omega), before,
      List.getElem?_append_right (by omega)]
    simp

def addum (g : Grow) (bytes : Nat) : Nat :=
  if g.grow < g.bytes + bytes - g.size then g.bytes + bytes - g.size + g.grow + 1 else g.grow

theorem le_addum (g : Grow) (bytes : Nat) : g.bytes + bytes ≤ g.size + addum g bytes := by
  unfold addum
  split <;> omega

def growInject (g : Grow) (data : List UInt8) : Grow :=
  if room : g.bytes + data.length ≤ g.size then g.store data room
  else (g.realloc fresh (addum g data.length)).store data (le_addum g data.length)

def growRestart (g : Grow) : Grow :=
  if g.bytes = 0 then g
  else {
    data := overwrite g.data 0 [0]
    bytes := 0
    size := g.size
    grow := g.grow
    cells := by
      rw [overwrite_length (by simp only [List.length_singleton]; have := g.cells; omega), g.cells]
    fits := Nat.zero_le _
    terminated := rfl }

/-- The `memmove` and the terminator at the end of `grow_cut`. -/
def Grow.move (g : Grow) (len : Nat) : Grow where
  data := overwrite g.data 0 (g.contents.drop len ++ [0])
  bytes := g.bytes - len
  size := g.size
  grow := g.grow
  cells := by
    have cells := g.cells
    have fits := g.fits
    rw [overwrite_length, cells]
    simp only [List.length_append, List.length_drop, g.contents_length, List.length_singleton]
    omega
  fits := Nat.le_trans (Nat.sub_le _ _) g.fits
  terminated := by
    have moved : (g.contents.drop len).length = g.bytes - len := by
      rw [List.length_drop, g.contents_length]
    rw [overwrite, List.take_zero, List.nil_append, List.append_assoc, ← moved,
      List.getElem?_append_right (Nat.le_refl _), Nat.sub_self]
    rfl

def growCut (g : Grow) (len : Nat) : Option Grow :=
  if g.bytes < len then none
  else if len = g.bytes then some (growRestart g)
  else some (g.move len)

/-! ## What becomes of the contents -/

theorem contents_growInit (size : Nat) : (growInit fresh size).contents = [] := rfl

theorem Grow.contents_realloc (g : Grow) (addum : Nat) :
    (g.realloc fresh addum).contents = g.contents := by
  have cells := g.cells
  have fits := g.fits
  exact List.take_append_of_le_length (show g.bytes ≤ g.data.length by omega)

theorem Grow.contents_store (g : Grow) (data : List UInt8)
    (room : g.bytes + data.length ≤ g.size) :
    (g.store data room).contents = g.contents ++ data := by
  have cells := g.cells
  exact take_overwrite (by omega) data [0]

theorem contents_growInject (g : Grow) (data : List UInt8) :
    (growInject fresh g data).contents = g.contents ++ data := by
  unfold growInject
  split
  · exact g.contents_store data _
  · refine ((g.realloc fresh _).contents_store data _).trans ?_
    rw [Grow.contents_realloc]

theorem contents_growRestart (g : Grow) : (growRestart g).contents = [] := by
  unfold growRestart
  split
  next empty => rw [Grow.contents, empty, List.take_zero]
  next => rfl

theorem Grow.contents_move (g : Grow) (len : Nat) :
    (g.move len).contents = g.contents.drop len := by
  have written := take_overwrite (Nat.zero_le g.data.length) (g.contents.drop len) [0]
  rw [List.length_drop, g.contents_length, Nat.zero_add] at written
  exact written

theorem contents_growCut {g cut : Grow} {len : Nat} (done : growCut g len = some cut) :
    cut.contents = g.contents.drop len := by
  unfold growCut at done
  split at done
  · cases done
  · split at done
    next all =>
      cases done
      rw [contents_growRestart, all, List.drop_of_length_le (Nat.le_of_eq g.contents_length)]
    next =>
      cases done
      exact g.contents_move len

theorem bytes_growCut {g cut : Grow} {len : Nat} (done : growCut g len = some cut) :
    cut.bytes = g.bytes - len := by
  rw [← cut.contents_length, contents_growCut done, List.length_drop, g.contents_length]

theorem le_of_growCut {g cut : Grow} {len : Nat} (done : growCut g len = some cut) :
    len ≤ g.bytes := by
  unfold growCut at done
  split at done
  next => cases done
  next inside => exact Nat.not_lt.mp inside

theorem growCut_of_le (g : Grow) (len : Nat) (inside : len ≤ g.bytes) :
    ∃ cut, growCut g len = some cut := by
  unfold growCut
  rw [if_neg (Nat.not_lt.mpr inside)]
  split
  · exact ⟨_, rfl⟩
  · exact ⟨_, rfl⟩

end Vpopmail.Vusaged

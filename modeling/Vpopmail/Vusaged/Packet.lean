import Vpopmail.Foundation.Network
import Vpopmail.Vusaged.Grow

/-! # Queries of the usage daemon

`query.c` answers a query in the buffer it was received in, `packet.c` takes the
packets off that buffer. A packet is a length of two bytes and the query.
-/

namespace Vpopmail.Vusaged

open Wire

/-! ## Query text -/

def lowerByte (byte : UInt8) : UInt8 :=
  if 65 ≤ byte ∧ byte ≤ 90 then byte + 32 else byte

/-- The loop of `query_parse`, which stops at the first terminator. -/
def lowerText : List UInt8 → List UInt8
  | [] => []
  | byte :: rest => if byte = 0 then byte :: rest else lowerByte byte :: lowerText rest

/-- The C string at the start of some cells. -/
def cstringAt (cells : List UInt8) : List UInt8 := cells.takeWhile (· ≠ 0)

/-- The text that is looked up for the query at the start of some cells. -/
def queryText (cells : List UInt8) : List UInt8 := cstringAt (lowerText cells)

theorem lowerByte_ne_zero {byte : UInt8} (used : byte ≠ 0) : lowerByte byte ≠ 0 := by
  unfold lowerByte
  split
  next upper =>
    intro wrapped
    have sum := congrArg UInt8.toNat wrapped
    have low := UInt8.le_iff_toNat_le.mp upper.1
    have high := UInt8.le_iff_toNat_le.mp upper.2
    rw [UInt8.toNat_add] at sum
    simp only [UInt8.reduceToNat] at sum low high
    omega
  next => exact used

@[simp] theorem lowerText_length (cells : List UInt8) :
    (lowerText cells).length = cells.length := by
  induction cells with
  | nil => rfl
  | cons byte rest induction =>
      unfold lowerText
      split
      · rfl
      · rw [List.length_cons, induction, List.length_cons]

/-- Nothing behind a terminator is lower-cased. -/
theorem lowerText_append_zero (text behind : List UInt8) :
    lowerText (text ++ 0 :: behind) = lowerText text ++ 0 :: behind := by
  induction text with
  | nil => rfl
  | cons byte rest induction =>
      rw [List.cons_append, lowerText, lowerText]
      split
      · rfl
      · rw [induction, List.cons_append]

theorem lowerText_append_of_mem {text : List UInt8} (ends : 0 ∈ text) (behind : List UInt8) :
    lowerText (text ++ behind) = lowerText text ++ behind := by
  rcases List.append_of_mem ends with ⟨before, after, rfl⟩
  rw [List.append_assoc, List.cons_append, lowerText_append_zero, lowerText_append_zero,
    List.append_assoc, List.cons_append]

theorem cstringAt_append_zero (text behind : List UInt8) :
    cstringAt (text ++ 0 :: behind) = cstringAt text := by
  induction text with
  | nil => rfl
  | cons byte rest induction =>
      by_cases ends : byte = 0
      · simp [cstringAt, ends]
      · simpa [cstringAt, ends] using induction

theorem queryText_append_zero (text behind : List UInt8) :
    queryText (text ++ 0 :: behind) = queryText text := by
  rw [queryText, lowerText_append_zero, cstringAt_append_zero, queryText]

theorem queryText_append_of_mem {text : List UInt8} (ends : 0 ∈ text) (behind : List UInt8) :
    queryText (text ++ behind) = queryText text := by
  rcases List.append_of_mem ends with ⟨before, after, rfl⟩
  rw [List.append_assoc, List.cons_append, queryText_append_zero, queryText_append_zero]

/-- A query without a terminator is looked up as a whole, lower-cased. -/
theorem queryText_of_not_mem {text : List UInt8} (free : 0 ∉ text) :
    queryText text = text.map lowerByte := by
  induction text with
  | nil => rfl
  | cons byte rest induction =>
      have used : byte ≠ 0 := (List.ne_of_not_mem_cons free).symm
      have later := induction (List.not_mem_of_not_mem_cons free)
      rw [queryText, cstringAt] at later ⊢
      rw [lowerText, if_neg used, List.takeWhile_cons_of_pos, later, List.map_cons]
      simpa using lowerByte_ne_zero used

namespace Grow

/-- Lower-casing the string at `data + offset` where it stands. -/
def lower (g : Grow) (offset : Nat) : Grow where
  data := g.data.take offset ++ lowerText (g.data.drop offset)
  bytes := g.bytes
  size := g.size
  grow := g.grow
  cells := by
    rw [List.length_append, lowerText_length, ← List.length_append, List.take_append_drop, g.cells]
  fits := g.fits
  terminated := by
    rcases g.data_eq with ⟨beyond, whole⟩
    have size := g.contents_length
    rw [whole]
    by_cases inside : offset ≤ g.bytes
    · rw [List.take_append_of_le_length (by omega), List.drop_append_of_le_length (by omega),
        lowerText_append_zero, ← List.append_assoc, List.getElem?_append_right]
      · simp only [List.length_append, lowerText_length, List.length_take, List.length_drop]
        rw [size, show g.bytes - (min offset g.bytes + (g.bytes - offset)) = 0 by omega]
        rfl
      · simp only [List.length_append, lowerText_length, List.length_take, List.length_drop]
        omega
    · rw [List.getElem?_append_left, List.getElem?_take_of_lt (by omega),
        List.getElem?_append_right (by omega), size, Nat.sub_self]
      · rfl
      · simp only [List.length_take, List.length_append, List.length_cons]
        omega

/-- Only the bytes in use are lower-cased. -/
theorem contents_lower (g : Grow) {offset : Nat} (inside : offset ≤ g.bytes) :
    (g.lower offset).contents =
      g.contents.take offset ++ lowerText (g.contents.drop offset) := by
  rcases g.data_eq with ⟨beyond, whole⟩
  have size := g.contents_length
  have lowered : g.data.take offset ++ lowerText (g.data.drop offset) =
      (g.contents.take offset ++ lowerText (g.contents.drop offset)) ++ 0 :: beyond := by
    rw [whole, List.take_append_of_le_length (by omega), List.drop_append_of_le_length (by omega),
      lowerText_append_zero, List.append_assoc]
  have length : (g.contents.take offset ++ lowerText (g.contents.drop offset)).length =
      g.bytes := by
    rw [List.length_append, lowerText_length, ← List.length_append, List.take_append_drop, size]
  refine (congrArg (List.take g.bytes) lowered).trans ?_
  rw [← length, List.take_left']
  rfl

/-- A query is read up to the end of the bytes in use at most. -/
theorem queryText_drop (g : Grow) {offset : Nat} (inside : offset ≤ g.bytes) :
    queryText (g.data.drop offset) = queryText (g.contents.drop offset) := by
  rcases g.data_eq with ⟨beyond, whole⟩
  have size := g.contents_length
  rw [whole, List.drop_append_of_le_length (by omega), queryText_append_zero]

end Grow

/-! ## Answering a query -/

/-- A usage and a message count. -/
structure Usage where
  susage : UInt64
  cusage : UInt64
  deriving DecidableEq

/-- What `user_get_use` finds: no user in the cache (it returns -1), a user whose
storage is not loaded yet, or the use. -/
inductive UserUse
  | unknown
  | waiting
  | found (usage : Usage)

/-- The usage records as the queries see them. -/
structure Lookups where
  domainGetUse : List UInt8 → Option Usage
  userGetUse : List UInt8 → UserUse

/-- What one query leads to: the use it is told, and the address
`queue_check_newuser` is given when the user is not known. -/
structure Answer where
  usage : Usage
  newuser : Option (List UInt8)
  deriving DecidableEq

/-- `htonll` and the bytes it leaves in memory. -/
def htonll (storage : UInt64) : List UInt8 := toNetwork 8 storage.toNat

/-- What is given to `packet_write`, one call after the other. -/
def Usage.writes (usage : Usage) : List (List UInt8) := [htonll usage.susage, htonll usage.cusage]

/-- The default response, not monitored: -1 in both. -/
def notMonitored : Usage := ⟨-1, -1⟩

def atSign : UInt8 := 64

def answer (lookups : Lookups) (query : List UInt8) : Answer :=
  if query.head? = some atSign then
    ⟨(lookups.domainGetUse query.tail).getD notMonitored, none⟩
  else
    match lookups.userGetUse query with
    | .unknown => ⟨notMonitored, some query⟩
    | .waiting => ⟨notMonitored, none⟩
    | .found usage => ⟨usage, none⟩

/-- `query_parse` on the buffer from `data + offset` on. It is given the length of
the packet and does not look at it. -/
def queryParse (lookups : Lookups) (g : Grow) (offset _len : Nat) : Answer × Grow :=
  (answer lookups (cstringAt ((g.lower offset).data.drop offset)), g.lower offset)

theorem Grow.drop_lower (g : Grow) {offset : Nat} (inside : offset ≤ g.bytes) :
    (g.lower offset).data.drop offset = lowerText (g.data.drop offset) := by
  have cells := g.cells
  have fits := g.fits
  exact List.drop_left' (List.length_take_of_le (by omega))

theorem queryParse_eq (lookups : Lookups) (g : Grow) {offset : Nat} (len : Nat)
    (inside : offset ≤ g.bytes) :
    queryParse lookups g offset len =
      (answer lookups (queryText (g.contents.drop offset)), g.lower offset) := by
  rw [queryParse, g.drop_lower inside, ← queryText, g.queryText_drop inside]

/-! ## Taking packets off the buffer -/

def packetMaxQuerySize : Nat := 1024

/-- What `packet_read` leaves: the answers, the buffer, and whether it returned 1. -/
structure PacketRead (Buffer : Type) where
  answers : List Answer
  buffer : Buffer
  accepted : Bool

def PacketRead.after {Buffer : Type} (answer : Answer) (later : PacketRead Buffer) :
    PacketRead Buffer :=
  { later with answers := answer :: later.answers }

/-- The loop of `packet_read`; every round takes bytes off the buffer. -/
def packetReadRounds (lookups : Lookups) : (rounds : Nat) → Grow → PacketRead Grow
  | 0, g => ⟨[], g, true⟩
  | rounds + 1, g =>
      if g.bytes < 2 then ⟨[], g, true⟩
      else
        let qlen := ofNetwork (g.data.take 2)
        if qlen = 0 then packetReadRounds lookups rounds ((growCut g 2).getD g)
        else if packetMaxQuerySize < qlen then ⟨[], g, false⟩
        else if g.bytes < qlen + 2 then ⟨[], g, true⟩
        else
          let (answer, g) := queryParse lookups g 2 qlen
          match growCut g (qlen + 2) with
          | none => ⟨[answer], g, false⟩
          | some g => (packetReadRounds lookups rounds g).after answer

def packetRead (lookups : Lookups) (g : Grow) : PacketRead Grow :=
  packetReadRounds lookups (g.bytes + 1) g

/-! ## The same on the bytes in use -/

def readRounds (lookups : Lookups) : (rounds : Nat) → List UInt8 → PacketRead (List UInt8)
  | 0, bytes => ⟨[], bytes, true⟩
  | rounds + 1, bytes =>
      if bytes.length < 2 then ⟨[], bytes, true⟩
      else
        let qlen := ofNetwork (bytes.take 2)
        if qlen = 0 then readRounds lookups rounds (bytes.drop 2)
        else if packetMaxQuerySize < qlen then ⟨[], bytes, false⟩
        else if bytes.length < qlen + 2 then ⟨[], bytes, true⟩
        else
          (readRounds lookups rounds ((lowerText (bytes.drop 2)).drop qlen)).after
            (answer lookups (queryText (bytes.drop 2)))

def PacketRead.contents (read : PacketRead Grow) : PacketRead (List UInt8) :=
  ⟨read.answers, read.buffer.contents, read.accepted⟩

theorem Grow.take_data (g : Grow) {count : Nat} (inside : count ≤ g.bytes) :
    g.data.take count = g.contents.take count := by
  rw [contents, List.take_take, Nat.min_eq_left inside]

theorem packetReadRounds_contents (lookups : Lookups) (rounds : Nat) (g : Grow) :
    (packetReadRounds lookups rounds g).contents = readRounds lookups rounds g.contents := by
  induction rounds generalizing g with
  | zero => rfl
  | succ rounds induction =>
      unfold packetReadRounds readRounds
      rw [g.contents_length]
      split
      next => rfl
      next enough =>
        rw [g.take_data (by omega)]
        simp only
        split
        next =>
          rcases growCut_of_le g 2 (by omega) with ⟨cut, done⟩
          rw [induction, done, Option.getD_some, contents_growCut done]
        next =>
          split
          next => rfl
          next =>
            split
            next => rfl
            next whole =>
              have lowered := g.contents_lower (show 2 ≤ g.bytes by omega)
              rcases growCut_of_le (g.lower 2)
                (ofNetwork (g.contents.take 2) + 2) (Nat.not_lt.mp whole) with ⟨cut, done⟩
              rw [queryParse_eq lookups g _ (by omega)]
              simp only [done]
              have left : cut.contents = (lowerText (g.contents.drop 2)).drop
                  (ofNetwork (g.contents.take 2)) := by
                rw [contents_growCut done, lowered, Nat.add_comm, ← List.drop_drop,
                  List.drop_left' (by simp; omega)]
              rw [← left, ← induction cut]
              rfl

end Vpopmail.Vusaged

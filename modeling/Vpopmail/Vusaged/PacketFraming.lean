import Vpopmail.Foundation.Framing
import Vpopmail.Vusaged.Packet

/-! # Pipelined packets

What a client is owed is said one packet at a time: a packet is its length and
exactly that many bytes of payload, and its answer is that of its payload alone.
`packet_read` keeps to this where every payload ends in a terminator, or in the
buffer, before the bytes of the next packet.
-/

namespace Vpopmail.Vusaged

open Wire

/-! ## Packets -/

def packetFront (bytes : List UInt8) : Front UInt8 (List UInt8) :=
  if bytes.length < 2 then .wait
  else if packetMaxQuerySize < ofNetwork (bytes.take 2) then .refuse
  else if bytes.length < ofNetwork (bytes.take 2) + 2 then .wait
  else .token ((bytes.drop 2).take (ofNetwork (bytes.take 2)))
    (bytes.drop (ofNetwork (bytes.take 2) + 2))

theorem take_header {header : List UInt8} (two : header.length = 2) (payload rest : List UInt8) :
    (header ++ payload ++ rest).take 2 = header := by
  rw [List.append_assoc, ← two, List.take_left']
  rfl

theorem drop_header {header : List UInt8} (two : header.length = 2) (payload rest : List UInt8) :
    (header ++ payload ++ rest).drop 2 = payload ++ rest := by
  rw [List.append_assoc, ← two, List.drop_left']
  rfl

theorem packet_length {header : List UInt8} (two : header.length = 2)
    (payload rest : List UInt8) :
    (header ++ payload ++ rest).length = 2 + payload.length + rest.length := by
  rw [List.length_append, List.length_append, two]

theorem packetFront_token_iff {bytes payload rest : List UInt8} :
    packetFront bytes = .token payload rest ↔
      ∃ header, bytes = header ++ payload ++ rest ∧ header.length = 2 ∧
        ofNetwork header = payload.length ∧ payload.length ≤ packetMaxQuerySize := by
  constructor
  · intro front
    unfold packetFront at front
    split at front
    · cases front
    · split at front
      · cases front
      · split at front
        · cases front
        next small whole =>
          cases front
          have size : ((bytes.drop 2).take (ofNetwork (bytes.take 2))).length =
              ofNetwork (bytes.take 2) := by
            rw [List.length_take_of_le]
            rw [List.length_drop]
            omega
          refine ⟨bytes.take 2, ?_, ?_, size.symm, ?_⟩
          · rw [Nat.add_comm, ← List.drop_drop, List.append_assoc, List.take_append_drop,
              List.take_append_drop]
          · rw [List.length_take_of_le]
            omega
          · rw [size]
            omega
  · rintro ⟨header, rfl, two, length, small⟩
    rw [packetFront, take_header two, length, packet_length two, if_neg (by omega),
      if_neg (by omega), if_neg (by omega), drop_header two, List.take_left', Nat.add_comm,
      ← List.drop_drop, drop_header two, List.drop_left']
    · rfl
    · rfl

theorem packetFront_refuse_iff {bytes : List UInt8} :
    packetFront bytes = .refuse ↔
      2 ≤ bytes.length ∧ packetMaxQuerySize < ofNetwork (bytes.take 2) := by
  unfold packetFront
  constructor
  · intro front
    split at front
    · cases front
    next enough =>
      split at front
      next large => exact ⟨by omega, large⟩
      next =>
        split at front
        · cases front
        · cases front
  · rintro ⟨enough, large⟩
    rw [if_neg (by omega), if_pos large]

def packetFraming : Framing UInt8 (List UInt8) where
  front := packetFront
  shrinks := by
    intro bytes payload rest front
    rcases packetFront_token_iff.mp front with ⟨header, rfl, two, -, -⟩
    simp only [List.length_append]
    omega
  token_append := by
    intro bytes payload rest front more
    rcases packetFront_token_iff.mp front with ⟨header, rfl, two, length, small⟩
    exact packetFront_token_iff.mpr ⟨header, by simp, two, length, small⟩
  token_alone := by
    intro bytes payload rest front
    rcases packetFront_token_iff.mp front with ⟨header, rfl, two, length, small⟩
    exact ⟨header ++ payload, rfl,
      packetFront_token_iff.mpr ⟨header, by simp, two, length, small⟩⟩
  refuse_append := by
    intro bytes front more
    rcases packetFront_refuse_iff.mp front with ⟨enough, large⟩
    refine packetFront_refuse_iff.mpr ⟨?_, ?_⟩
    · rw [List.length_append]
      omega
    · rwa [List.take_append_of_le_length enough]

theorem packetFraming_front (bytes : List UInt8) :
    packetFraming.front bytes = packetFront bytes := rfl

/-- What one packet is owed: nothing when it is empty, otherwise the answer to its payload. -/
def answersOf (lookups : Lookups) (payload : List UInt8) : List Answer :=
  if payload = [] then [] else [answer lookups (queryText payload)]

/-- What a stream is owed. -/
def owed (lookups : Lookups) (stream : List UInt8) : PacketRead (List UInt8) :=
  let decoded := packetFraming.decode stream
  ⟨decoded.tokens.flatMap (answersOf lookups), decoded.rest, decoded.accepted⟩

/-! ## One round of the loop -/

section Round

variable {lookups : Lookups} {bytes payload rest : List UInt8}

theorem readRounds_wait (front : packetFront bytes = .wait) (rounds : Nat) :
    readRounds lookups (rounds + 1) bytes = ⟨[], bytes, true⟩ := by
  unfold packetFront at front
  unfold readRounds
  split at front
  next short => rw [if_pos short]
  next enough =>
    split at front
    · cases front
    next small =>
      split at front
      next partly =>
        have used : ofNetwork (bytes.take 2) ≠ 0 := by omega
        simp only [if_neg enough, if_neg used, if_neg small, if_pos partly]
      next => cases front

theorem readRounds_refuse (front : packetFront bytes = .refuse) (rounds : Nat) :
    readRounds lookups (rounds + 1) bytes = ⟨[], bytes, false⟩ := by
  rcases packetFront_refuse_iff.mp front with ⟨enough, large⟩
  have short : ¬bytes.length < 2 := by omega
  have used : ofNetwork (bytes.take 2) ≠ 0 := by omega
  unfold readRounds
  simp only [if_neg short, if_neg used, if_pos large]

theorem readRounds_empty (front : packetFront bytes = .token [] rest) (rounds : Nat) :
    readRounds lookups (rounds + 1) bytes = readRounds lookups rounds rest := by
  rcases packetFront_token_iff.mp front with ⟨header, rfl, two, length, -⟩
  rw [readRounds, packet_length two, if_neg (by omega)]
  simp only [take_header two, drop_header two, length, List.length_nil, if_true, List.nil_append]

theorem readRounds_token (front : packetFront bytes = .token payload rest)
    (used : payload ≠ []) (rounds : Nat) :
    readRounds lookups (rounds + 1) bytes =
      (readRounds lookups rounds ((lowerText (payload ++ rest)).drop payload.length)).after
        (answer lookups (queryText (payload ++ rest))) := by
  rcases packetFront_token_iff.mp front with ⟨header, rfl, two, length, small⟩
  have nonempty : payload.length ≠ 0 := fun empty => used (List.length_eq_zero_iff.mp empty)
  rw [readRounds, packet_length two, if_neg (by omega)]
  simp only [take_header two, drop_header two, length]
  rw [if_neg nonempty, if_neg (by omega), if_neg (by omega)]

end Round

/-! ## Streams whose packets end on their own -/

/-- The string of the payload ends in the payload, or the stream has no byte behind it
that the string would go on into. -/
def Separated (payload rest : List UInt8) : Prop :=
  payload = [] ∨ 0 ∈ payload ∨ ∀ next ∈ rest.head?, next = 0

def Bounded (stream : List UInt8) : Prop :=
  ∀ bytes payload rest, packetFraming.Reached stream bytes →
    packetFront bytes = .token payload rest → Separated payload rest

theorem Separated.lowerText_append {payload rest : List UInt8} (separated : Separated payload rest)
    (used : payload ≠ []) : lowerText (payload ++ rest) = lowerText payload ++ rest := by
  rcases separated with empty | ends | next
  · exact absurd empty used
  · exact lowerText_append_of_mem ends rest
  · cases rest with
    | nil => rw [List.append_nil, List.append_nil]
    | cons byte rest =>
        rw [next byte rfl]
        exact lowerText_append_zero payload rest

theorem Separated.queryText_append {payload rest : List UInt8} (separated : Separated payload rest)
    (used : payload ≠ []) : queryText (payload ++ rest) = queryText payload := by
  rcases separated with empty | ends | next
  · exact absurd empty used
  · exact queryText_append_of_mem ends rest
  · cases rest with
    | nil => rw [List.append_nil]
    | cons byte rest =>
        rw [next byte rfl]
        exact queryText_append_zero payload rest

theorem Bounded.of_append {stream more : List UInt8} (bounded : Bounded (stream ++ more)) :
    Bounded stream := by
  intro bytes payload rest reached front
  have separated := bounded (bytes ++ more) payload (rest ++ more) (reached.append more)
    (packetFraming.token_append front more)
  rcases separated with empty | ends | next
  · exact .inl empty
  · exact .inr (.inl ends)
  · refine .inr (.inr ?_)
    intro byte head
    apply next byte
    cases rest with
    | nil => cases head
    | cons byte rest => exact head

theorem Bounded.of_reached {stream left : List UInt8} (bounded : Bounded stream)
    (reached : packetFraming.Reached stream left) : Bounded left := by
  intro bytes payload rest later front
  exact bounded bytes payload rest (reached.trans later) front

/-- One byte completes at most one packet, with nothing behind it. -/
theorem bounded_snoc {left : List UInt8} (waiting : packetFront left = .wait) (byte : UInt8) :
    Bounded (left ++ [byte]) := by
  intro bytes payload rest reached front
  refine .inr (.inr ?_)
  have empty : rest = [] := by
    cases reached with
    | here => exact packetFraming.rest_of_snoc waiting front
    | after taken later =>
        rw [packetFraming.rest_of_snoc waiting taken] at later
        cases later with
        | here => exact absurd front (by simp [packetFront])
        | after none _ => exact absurd none (by simp [packetFraming_front, packetFront])
  intro next head
  rw [empty] at head
  cases head

/-- On such a stream `packet_read` gives what the stream is owed. -/
theorem readRounds_eq_owed (lookups : Lookups) {rounds : Nat} {bytes : List UInt8}
    (bounded : Bounded bytes) (enough : bytes.length < rounds) :
    readRounds lookups rounds bytes = owed lookups bytes := by
  induction bytes using packetFraming.decode_induction generalizing rounds with
  | wait bytes front =>
      cases rounds with
      | zero => cases enough
      | succ rounds =>
          rw [readRounds_wait front, owed, Framing.decode_wait front]
          rfl
  | refuse bytes front =>
      cases rounds with
      | zero => cases enough
      | succ rounds =>
          rw [readRounds_refuse front, owed, Framing.decode_refuse front]
          rfl
  | token bytes payload rest front induction =>
      cases rounds with
      | zero => cases enough
      | succ rounds =>
          have shorter := packetFraming.shrinks front
          have later := induction (bounded.of_reached (.after front (.here _)))
            (show rest.length < rounds by omega)
          have separated := bounded bytes payload rest (.here _) front
          rw [owed, Framing.decode_token front, List.flatMap_cons, answersOf]
          by_cases used : payload = []
          · rw [if_pos used, readRounds_empty (used ▸ front), later]
            rfl
          · have left : (lowerText (payload ++ rest)).drop payload.length = rest := by
              rw [separated.lowerText_append used]
              exact List.drop_left' (lowerText_length payload)
            rw [if_neg used, readRounds_token front used, separated.queryText_append used, left,
              later]
            rfl

theorem packetRead_eq_owed (lookups : Lookups) {g : Grow} (bounded : Bounded g.contents) :
    (packetRead lookups g).contents = owed lookups g.contents := by
  rw [packetRead, packetReadRounds_contents]
  apply readRounds_eq_owed lookups bounded
  rw [g.contents_length]
  exact Nat.lt_succ_self _

/-! ## Reads -/

def socketMaxReadSize : Nat := 1400

/-- What the reads of one connection lead to; a stream that is not accepted is not
read on. -/
def serveReads (fresh : Nat → UInt8) (lookups : Lookups) (g : Grow) :
    List (List UInt8) → PacketRead Grow
  | [] => ⟨[], g, true⟩
  | read :: reads =>
      let done := packetRead lookups (growInject fresh g read)
      if done.accepted then
        let later := serveReads fresh lookups done.buffer reads
        { later with answers := done.answers ++ later.answers }
      else done

/-- The reads give what the stream is owed, and a packet that has only come in part
is kept as it came. -/
def Faithful (lookups : Lookups) (stream : List UInt8) (served : PacketRead Grow) : Prop :=
  served.answers = (owed lookups stream).answers ∧
    served.accepted = (owed lookups stream).accepted ∧
    (served.accepted = true → served.buffer.contents = (owed lookups stream).buffer)

/-- A cut of a stream into what single calls of `read` return. -/
def Cut (stream : List UInt8) (reads : List (List UInt8)) : Prop :=
  reads.flatten = stream ∧ ∀ read ∈ reads, read ≠ [] ∧ read.length ≤ socketMaxReadSize

/-- However the stream is cut, and whatever is looked up. -/
def FramedBySelf (stream : List UInt8) : Prop :=
  ∀ fresh lookups reads, Cut stream reads →
    Faithful lookups stream (serveReads fresh lookups (growInit fresh 0) reads)

/-- Every read meets a buffer that is bounded with what it adds. -/
def BoundedReads (left : List UInt8) : List (List UInt8) → Prop
  | [] => True
  | read :: reads =>
      Bounded (left ++ read) ∧ BoundedReads (packetFraming.decode (left ++ read)).rest reads

theorem boundedReads_of_bounded {left : List UInt8} (reads : List (List UInt8))
    (bounded : Bounded (left ++ reads.flatten)) : BoundedReads left reads := by
  induction reads generalizing left with
  | nil => trivial
  | cons read reads induction =>
      rw [List.flatten_cons, ← List.append_assoc] at bounded
      refine ⟨bounded.of_append, induction ?_⟩
      exact bounded.of_reached ((packetFraming.reached_rest (left ++ read)).append reads.flatten)

/-- A stream that comes byte by byte never shows a packet what is behind it. -/
theorem boundedReads_bytes {left : List UInt8} (waiting : packetFront left = .wait)
    (stream : List UInt8) (accepted : (packetFraming.decode (left ++ stream)).accepted = true) :
    BoundedReads left (stream.map fun byte => [byte]) := by
  induction stream generalizing left with
  | nil => trivial
  | cons byte rest induction =>
      rw [List.append_cons, packetFraming.decode_append] at accepted
      cases first : (packetFraming.decode (left ++ [byte])).accepted with
      | false => simp [first] at accepted
      | true =>
          rw [first, if_pos rfl] at accepted
          exact ⟨bounded_snoc waiting byte, induction (packetFraming.front_rest first) accepted⟩

theorem serveReads_of_boundedReads (fresh : Nat → UInt8) (lookups : Lookups) {g : Grow}
    (waiting : packetFront g.contents = .wait) (reads : List (List UInt8))
    (bounded : BoundedReads g.contents reads) :
    Faithful lookups (g.contents ++ reads.flatten) (serveReads fresh lookups g reads) := by
  induction reads generalizing g with
  | nil =>
      have decoded := packetFraming.decode_wait waiting
      simp [Faithful, serveReads, owed, decoded]
  | cons read reads induction =>
      have contents := contents_growInject fresh g read
      have served := packetRead_eq_owed lookups (g := growInject fresh g read)
        (by rw [contents]; exact bounded.1)
      rw [contents] at served
      have answers := congrArg PacketRead.answers served
      have accepted := congrArg PacketRead.accepted served
      have buffer := congrArg PacketRead.buffer served
      simp only [PacketRead.contents, owed] at answers accepted buffer
      have decoded := packetFraming.decode_append (g.contents ++ read) reads.flatten
      rw [serveReads, List.flatten_cons, ← List.append_assoc]
      cases first : (packetFraming.decode (g.contents ++ read)).accepted with
      | false =>
          rw [first, if_neg Bool.false_ne_true] at decoded
          have refused : (packetRead lookups (growInject fresh g read)).accepted = false :=
            accepted.trans first
          rw [refused, if_neg Bool.false_ne_true]
          simp only [Faithful, owed, decoded]
          exact ⟨answers, accepted, fun accepting => by rw [refused] at accepting; cases accepting⟩
      | true =>
          rw [first, if_pos rfl] at decoded
          rw [first] at accepted
          have later := induction (g := (packetRead lookups (growInject fresh g read)).buffer)
            (by rw [buffer]; exact packetFraming.front_rest first)
            (by rw [buffer]; exact bounded.2)
          rw [buffer] at later
          rw [if_pos accepted]
          simp only [Faithful, owed, decoded, List.flatMap_append] at later ⊢
          exact ⟨by rw [answers, later.1], later.2⟩

/-- Whatever was served before, the reads that follow only add answers. -/
theorem serveReads_append (fresh : Nat → UInt8) (lookups : Lookups) (g : Grow)
    {reads : List (List UInt8)} (accepted : (serveReads fresh lookups g reads).accepted = true)
    (more : List (List UInt8)) :
    (serveReads fresh lookups g (reads ++ more)).answers =
      (serveReads fresh lookups g reads).answers ++
        (serveReads fresh lookups (serveReads fresh lookups g reads).buffer more).answers := by
  induction reads generalizing g with
  | nil => rfl
  | cons read reads induction =>
      rw [List.cons_append, serveReads, serveReads] at *
      cases first : (packetRead lookups (growInject fresh g read)).accepted with
      | false => simp [first] at accepted
      | true =>
          simp only [first, if_true] at accepted ⊢
          rw [induction _ accepted, List.append_assoc]

/-! ## A packet that runs into the next one -/

/-- A daemon that knows the use of one query and of no other. -/
def knowing (query : List UInt8) : Lookups where
  domainGetUse domain := if atSign :: domain = query then some ⟨0, 0⟩ else none
  userGetUse user := if user = query then .found ⟨0, 0⟩ else .unknown

theorem answer_knowing (query : List UInt8) :
    (answer (knowing query) query).usage = ⟨0, 0⟩ := by
  unfold answer
  split
  next domain =>
    cases query with
    | nil => cases domain
    | cons first rest =>
        cases domain
        simp [knowing]
  next => simp [knowing]

theorem answer_knowing_of_ne {query other : List UInt8} (different : other ≠ query) :
    (answer (knowing query) other).usage = notMonitored := by
  unfold answer
  split
  next domain =>
    cases other with
    | nil => cases domain
    | cons first rest =>
        cases domain
        simp [knowing, different]
  next => simp [knowing, different]

/-- The packet and the byte behind it, read together, are answered as one longer query. -/
theorem serveReads_overrun (fresh : Nat → UInt8) (lookups : Lookups) {g : Grow}
    {payload read : List UInt8} {next : UInt8} (more : List (List UInt8))
    (used : payload ≠ [])
    (front : packetFront (g.contents ++ read) = .token payload [next]) :
    (serveReads fresh lookups g (read :: more)).answers.head? =
      some (answer lookups (queryText (payload ++ [next]))) := by
  have contents := contents_growInject fresh g read
  have served := packetReadRounds_contents lookups
    ((growInject fresh g read).bytes + 1) (growInject fresh g read)
  rw [contents, readRounds_token front used] at served
  have answers := congrArg PacketRead.answers served
  simp only [PacketRead.contents, PacketRead.after] at answers
  rw [serveReads, packetRead]
  split
  · simp only [answers, List.cons_append, List.head?_cons]
  · simp only [answers, List.head?_cons]

theorem flatten_bytes (stream : List UInt8) :
    (stream.map fun byte => [byte]).flatten = stream := by
  induction stream with
  | nil => rfl
  | cons byte rest induction => rw [List.map_cons, List.flatten_cons, induction]; rfl

theorem readable_of_mem_bytes {stream read : List UInt8}
    (member : read ∈ stream.map fun byte => [byte]) :
    read ≠ [] ∧ read.length ≤ socketMaxReadSize := by
  rcases List.mem_map.mp member with ⟨byte, -, rfl⟩
  exact ⟨List.cons_ne_nil _ _, show 1 ≤ socketMaxReadSize by decide⟩

/-- The first answer that is owed to a stream after some of its packets. -/
theorem owed_append_token (lookups : Lookups) {taken bytes payload rest : List UInt8}
    {tokens : List (List UInt8)} (before : packetFraming.decode taken = ⟨tokens, [], true⟩)
    (front : packetFront bytes = .token payload rest) (used : payload ≠ []) :
    ∃ later, (owed lookups (taken ++ bytes)).answers =
      tokens.flatMap (answersOf lookups) ++ answer lookups (queryText payload) :: later := by
  have split := packetFraming.decode_append taken bytes
  rw [before, if_pos rfl, List.nil_append, packetFraming.decode_token front] at split
  refine ⟨(packetFraming.decode rest).tokens.flatMap (answersOf lookups), ?_⟩
  have first : answersOf lookups payload = [answer lookups (queryText payload)] := if_neg used
  rw [owed, split]
  simp only [List.flatMap_append, List.flatMap_cons, first, List.cons_append, List.nil_append]

/-- A packet that does not end on its own can be read so that it gets another answer. -/
theorem separated_of_framedBySelf {stream : List UInt8} (framed : FramedBySelf stream)
    {bytes payload rest : List UInt8} (reached : packetFraming.Reached stream bytes)
    (front : packetFront bytes = .token payload rest) : Separated payload rest := by
  by_contra runs
  rw [Separated, not_or, not_or] at runs
  rcases runs with ⟨used, free, open_⟩
  cases rest with
  | nil => exact open_ fun next head => nomatch head
  | cons next after =>
      rcases reached.split (by rfl) with ⟨taken, tokens, whole, before⟩
      rcases packetFraming.token_alone front with ⟨packet, split, alone⟩
      rcases List.eq_nil_or_concat packet with rfl | ⟨init, last, rfl⟩
      · cases alone
      · rw [List.concat_eq_append] at split alone
        -- All up to the last byte of the packet is read byte by byte.
        have waiting := packetFraming.front_of_snoc alone
        have start := packetFraming.decode_append taken init
        rw [before, if_pos rfl, List.nil_append, packetFraming.decode_wait waiting] at start
        simp only [List.append_nil] at start
        let fresh : Nat → UInt8 := fun _ => 0
        let lookups := knowing (queryText payload)
        let slow := (taken ++ init).map fun byte => [byte]
        let fast := [last, next] :: after.map fun byte => [byte]
        have served := serveReads_of_boundedReads fresh lookups (g := growInit fresh 0)
          (by rfl) slow
          (boundedReads_bytes (by rfl) (taken ++ init) (congrArg Decoded.accepted start))
        rw [flatten_bytes, contents_growInit, List.nil_append, Faithful, owed, start] at served
        rcases served with ⟨answers, accepted, buffer⟩
        have left := buffer accepted
        have overrun := serveReads_overrun fresh lookups
          (after.map fun byte => [byte]) used
          (show packetFront ((serveReads fresh lookups (growInit fresh 0) slow).buffer.contents ++
            [last, next]) = .token payload [next] by
              rw [left, List.append_cons init last [next]]
              exact packetFraming.token_append alone [next])
        have cut : Cut stream (slow ++ fast) := by
          refine ⟨?_, ?_⟩
          · rw [List.flatten_append, flatten_bytes, List.flatten_cons, flatten_bytes, whole, split]
            simp
          · intro read member
            rcases List.mem_append.mp member with early | late
            · exact readable_of_mem_bytes early
            · rcases List.mem_cons.mp late with rfl | later
              · exact ⟨List.cons_ne_nil _ _, show 2 ≤ socketMaxReadSize by decide⟩
              · exact readable_of_mem_bytes later
        have same := (framed fresh lookups (slow ++ fast) cut).1
        rcases owed_append_token lookups before front used with ⟨later, first⟩
        rw [serveReads_append _ _ _ accepted, answers, whole, first,
          List.append_cancel_left_eq] at same
        rw [same, List.head?_cons, Option.some.injEq] at overrun
        have longer : queryText (payload ++ [next]) ≠ queryText payload := by
          have nonzero : 0 ∉ payload ++ [next] := by
            intro member
            rcases List.mem_append.mp member with early | final
            · exact free early
            · refine open_ fun byte head => ?_
              cases head
              exact (List.mem_singleton.mp final).symm
          intro equal
          have lengths := congrArg List.length equal
          rw [queryText_of_not_mem nonzero, queryText_of_not_mem free] at lengths
          simp at lengths
        have usage := congrArg Answer.usage overrun
        rw [answer_knowing, answer_knowing_of_ne longer] at usage
        exact absurd usage (by decide)

/-- Exactly the streams whose packets all end on their own are framed packet by packet,
however they are cut into reads. -/
theorem framedBySelf_iff (stream : List UInt8) : FramedBySelf stream ↔ Bounded stream := by
  constructor
  · intro framed bytes payload rest reached front
    exact separated_of_framedBySelf framed reached front
  · intro bounded fresh lookups reads cut
    have start := contents_growInit fresh 0
    have served := serveReads_of_boundedReads fresh lookups (g := growInit fresh 0) (by rfl) reads
      (boundedReads_of_bounded reads (by rw [start, cut.1]; exact bounded))
    rwa [start, List.nil_append, cut.1] at served

/-- The query x is read on into the length of a packet of 321 bytes, and that length
becomes 353. -/
theorem not_framedBySelf_overrun : ¬FramedBySelf [0, 1, 120, 1, 65] := by
  intro framed
  have cut : Cut [0, 1, 120, 1, 65] [[0, 1, 120, 1, 65]] := by
    refine ⟨rfl, ?_⟩
    intro read member
    rw [List.mem_singleton.mp member]
    exact ⟨List.cons_ne_nil _ _, show 5 ≤ socketMaxReadSize by decide⟩
  have same := (framed (fun _ => 0) (knowing [120]) _ cut).1
  revert same
  decide +kernel

end Vpopmail.Vusaged

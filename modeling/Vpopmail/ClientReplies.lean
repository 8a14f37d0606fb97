import Vpopmail.Client

/-! # Whose reply it is

The replies carry no identification: a query is told what it asked for only when
nothing of the replies to earlier packets is left to read.
-/

namespace Vpopmail.Client

open Wire Vusaged

/-! ## The replies of a connection -/

/-- The length of the replies, whatever is answered. -/
def owedSize (sent : List UInt8) : Nat :=
  (packetFraming.decode sent).tokens.countP (· ≠ []) * replySize

theorem writes_length (usage : Usage) : usage.writes.flatten.length = replySize := by
  simp [Usage.writes, htonll, replySize]

theorem repliesFrom_length (answers : Answers) (before : Nat) (payloads : List (List UInt8)) :
    (repliesFrom answers before payloads).length = payloads.countP (· ≠ []) * replySize := by
  induction payloads generalizing before with
  | nil => simp [repliesFrom]
  | cons payload rest induction =>
      rw [repliesFrom, List.length_append, induction, List.countP_cons]
      by_cases empty : payload = []
      · simp [empty]
      · rw [if_neg empty, writes_length, if_pos (by simpa using empty), Nat.add_mul, Nat.one_mul,
          Nat.add_comm]

theorem replies_length (answers : Answers) (sent : List UInt8) :
    (replies answers sent).length = owedSize sent := repliesFrom_length answers 0 _

theorem repliesFrom_append (answers : Answers) (before : Nat) (first second : List (List UInt8)) :
    repliesFrom answers before (first ++ second) =
      repliesFrom answers before first ++ repliesFrom answers (before + first.length) second := by
  induction first generalizing before with
  | nil => rfl
  | cons payload rest induction =>
      rw [List.cons_append, repliesFrom, repliesFrom, induction, List.append_assoc,
        List.length_cons, Nat.add_assoc, Nat.add_comm 1]

/-- More that is sent only adds packets. -/
theorem tokens_append (sent more : List UInt8) :
    ∃ later, (packetFraming.decode (sent ++ more)).tokens =
      (packetFraming.decode sent).tokens ++ later := by
  rw [packetFraming.decode_append]
  split
  · exact ⟨_, rfl⟩
  · exact ⟨[], (List.append_nil _).symm⟩

theorem replies_append (answers : Answers) (sent more : List UInt8) :
    ∃ later, replies answers (sent ++ more) = replies answers sent ++
      repliesFrom answers (packetFraming.decode sent).tokens.length later := by
  rcases tokens_append sent more with ⟨later, tokens⟩
  refine ⟨later, ?_⟩
  rw [replies, tokens, repliesFrom_append, Nat.zero_add, replies]

theorem owedSize_le (sent more : List UInt8) : owedSize sent ≤ owedSize (sent ++ more) := by
  rcases tokens_append sent more with ⟨later, tokens⟩
  rw [owedSize, owedSize, tokens, List.countP_append]
  exact Nat.mul_le_mul_right _ (Nat.le_add_right _ _)

theorem readUsage_writes (usage : Usage) : readUsage usage.writes.flatten = usage := by
  have halves : usage.writes.flatten = htonll usage.susage ++ htonll usage.cusage := by
    simp [Usage.writes]
  have size : (htonll usage.susage).length = 8 := toNetwork_length 8 _
  have first : UInt64.ofNat (ofNetwork (htonll usage.susage)) = usage.susage := by
    rw [htonll, ofNetwork_toNetwork_of_lt usage.susage.toNat_lt, UInt64.ofNat_toNat]
  have second : UInt64.ofNat (ofNetwork (htonll usage.cusage)) = usage.cusage := by
    rw [htonll, ofNetwork_toNetwork_of_lt usage.cusage.toNat_lt, UInt64.ofNat_toNat]
  rw [readUsage, halves, List.take_left' size, List.drop_left' size, first, second]

/-! ## One query -/

/-- Everything of the packet has been taken and no system call fails. -/
def Call.Asked (call : Call) : Prop :=
  2 + call.entry.length ≤ call.timing.sent ∧ call.timing.interrupted = false

instance (call : Call) : Decidable call.Asked := inferInstanceAs (Decidable (_ ∧ _))

def unreadSize (connection : Connection) : Nat :=
  owedSize connection.sent - connection.received

theorem unread_length (answers : Answers) (connection : Connection) :
    (unread answers connection).length = unreadSize connection := by
  rw [unread, List.length_drop, replies_length, unreadSize]

/-- The bytes that the single `read` returns. -/
def readSize (connection : Connection) (call : Call) : Nat :=
  min replySize (min call.timing.ready (unreadSize (connection.send call)))

/-- The query is told something. -/
def Succeeds (connection : Connection) (call : Call) : Prop :=
  call.Asked ∧ readSize connection call = replySize

instance (connection : Connection) (call : Call) : Decidable (Succeeds connection call) :=
  inferInstanceAs (Decidable (_ ∧ _))

/-- Where the connection stands after a query, whatever is answered. -/
def after (connection : Connection) (call : Call) : Connection :=
  if call.Asked then
    { connection.send call with
      received := connection.received + readSize connection call }
  else connection.send call

/-- A query reads the next bytes of the replies, whatever they belong to. -/
theorem clientQuery_eq (answers : Answers) (connection : Connection) (call : Call) :
    clientQuery answers connection call =
      (if Succeeds connection call then
          ⟨true, readUsage ((unread answers (connection.send call)).take replySize)⟩
        else .failed,
        after connection call) := by
  have sizes : (((unread answers (connection.send call)).take call.timing.ready).take
      replySize).length = readSize connection call := by
    rw [List.length_take, List.length_take, unread_length, readSize]
  unfold clientQuery
  simp only [sizes]
  by_cases asked : call.Asked
  · have whole := asked.1
    have running : ¬call.timing.interrupted = true := by simp [asked.2]
    rw [if_neg (show ¬call.timing.sent < 2 by omega),
      if_neg (show ¬call.timing.sent - 2 < call.entry.length by omega), if_neg running, after,
      if_pos asked]
    by_cases none : call.timing.ready = 0
    · have nothing : readSize connection call = 0 := by
        rw [readSize, none, Nat.zero_min, Nat.min_zero]
      have fails : ¬Succeeds connection call := by
        rintro ⟨-, full⟩
        rw [nothing] at full
        cases full
      rw [if_pos none, if_neg fails, nothing]
      rfl
    · rw [if_neg none]
      by_cases full : readSize connection call = replySize
      · have pieces : min replySize call.timing.ready = replySize := by
          rw [readSize] at full
          omega
        rw [if_neg (by rw [full]; decide), if_neg (not_not.mpr full),
          if_pos (show Succeeds connection call from ⟨asked, full⟩), List.take_take, pieces]
        rfl
      · rw [if_neg (fun succeeds => full succeeds.2 : ¬Succeeds connection call), if_pos full]
        split <;> rfl
  · rw [if_neg (fun succeeds => asked succeeds.1 : ¬Succeeds connection call), after,
      if_neg asked]
    split
    · rfl
    · split
      · rfl
      · rw [if_pos]
        by_contra running
        exact asked ⟨by omega, by simpa using running⟩

/-! ## Being caught up -/

/-- No packet is under way, and the replies to all packets have been read. -/
structure CaughtUp (connection : Connection) : Prop where
  accepted : (packetFraming.decode connection.sent).accepted = true
  rest : (packetFraming.decode connection.sent).rest = []
  read : connection.received = owedSize connection.sent

/-- The query reaches the daemon as a packet that is answered. -/
def Answered (connection : Connection) (call : Call) : Prop :=
  (packetFraming.decode connection.sent).accepted = true ∧
    (packetFraming.decode connection.sent).rest = [] ∧ call.entry ≠ [] ∧
    call.entry.length ≤ packetMaxQuerySize

instance (connection : Connection) (call : Call) : Decidable (Answered connection call) :=
  inferInstanceAs (Decidable (_ ∧ _))

/-- What the daemon computes for the entry of a query. -/
def own (answers : Answers) (connection : Connection) (call : Call) : Option Usage :=
  if Answered connection call then
    some (answers (packetFraming.decode connection.sent).tokens.length call.entry)
  else none

/-- The daemon is owed no more than it has been read. -/
def Within (connection : Connection) : Prop :=
  connection.received ≤ owedSize connection.sent

theorem within_new : Within Connection.new := Nat.zero_le _

theorem within_after {connection : Connection} (within : Within connection) (call : Call) :
    Within (after connection call) := by
  have more := owedSize_le connection.sent (call.packet.take call.timing.sent)
  have sent : (connection.send call).sent =
      connection.sent ++ call.packet.take call.timing.sent := rfl
  unfold after
  split
  · have read : readSize connection call ≤ unreadSize (connection.send call) := by
      rw [readSize]
      omega
    have received : (connection.send call).received = connection.received := rfl
    rw [unreadSize, received] at read
    rw [Within] at within ⊢
    simp only
    rw [sent] at read ⊢
    omega
  · exact Nat.le_trans within more

/-- The packet of a query that is taken whole. -/
theorem packet_front (call : Call) (small : call.entry.length ≤ packetMaxQuerySize) :
    packetFront call.packet = .token call.entry [] := by
  refine packetFront_token_iff.mpr ⟨toNetwork 2 call.entry.length, ?_, toNetwork_length 2 _, ?_,
    small⟩
  · rw [Call.packet, List.append_nil]
  · exact ofNetwork_toNetwork_of_lt (by have := call.fits; omega)

theorem decode_packet (call : Call) (small : call.entry.length ≤ packetMaxQuerySize) :
    packetFraming.decode call.packet = ⟨[call.entry], [], true⟩ := by
  have front : packetFraming.front call.packet = .token call.entry [] := packet_front call small
  rw [packetFraming.decode_token front, packetFraming.decode_wait (by rfl)]

theorem packet_length (call : Call) : call.packet.length = 2 + call.entry.length := by
  rw [Call.packet, List.length_append, toNetwork_length]

theorem packet_refused (call : Call) (large : packetMaxQuerySize < call.entry.length) :
    packetFront call.packet = .refuse := by
  refine packetFront_refuse_iff.mpr ⟨?_, ?_⟩
  · rw [packet_length]
    omega
  · rw [Call.packet, List.take_left' (toNetwork_length 2 _),
      ofNetwork_toNetwork_of_lt (by have := call.fits; omega)]
    exact large

/-- The replies after a whole packet has been sent with none under way. -/
theorem replies_send (answers : Answers) {connection : Connection} {call : Call}
    (accepted : (packetFraming.decode connection.sent).accepted = true)
    (rest : (packetFraming.decode connection.sent).rest = []) (asked : call.Asked) :
    replies answers (connection.send call).sent = replies answers connection.sent ++
      match own answers connection call with
      | none => []
      | some usage => usage.writes.flatten := by
  have taken : (connection.send call).sent = connection.sent ++ call.packet := by
    rw [Connection.send, List.take_of_length_le (by rw [packet_length]; exact asked.1)]
  have decoded := packetFraming.decode_append connection.sent call.packet
  rw [accepted, if_pos rfl, rest, List.nil_append] at decoded
  rw [taken, replies, decoded, replies]
  by_cases small : call.entry.length ≤ packetMaxQuerySize
  · rw [decode_packet call small, repliesFrom_append, Nat.zero_add, repliesFrom, repliesFrom, List.append_nil]
    congr 1
    by_cases empty : call.entry = []
    · rw [if_pos empty, own,
        if_neg (fun answered => answered.2.2.1 empty : ¬Answered connection call)]
    · rw [if_neg empty, own, if_pos (show Answered connection call from ⟨accepted, rest, empty, small⟩)]
  · have none : packetFraming.decode call.packet = ⟨[], call.packet, false⟩ :=
      packetFraming.decode_refuse (packet_refused call (Nat.lt_of_not_le small))
    rw [none, own, if_neg (fun answered => small answered.2.2.2 : ¬Answered connection call)]
    simp only [List.append_nil]

/-- A client that is caught up has only the reply to its own query to read. -/
theorem CaughtUp.unread_send {connection : Connection} (caughtUp : CaughtUp connection)
    (answers : Answers) {call : Call} (asked : call.Asked) :
    unread answers (connection.send call) =
      match own answers connection call with
      | none => []
      | some usage => usage.writes.flatten := by
  have received : (connection.send call).received = (replies answers connection.sent).length := by
    rw [replies_length]
    exact caughtUp.read
  rw [unread, replies_send answers caughtUp.accepted caughtUp.rest asked, received,
    List.drop_left]

/-! ## The right answer -/

/-- All replies up to that of the query come before the timeout, and no call fails. -/
def InTime (connection : Connection) (call : Call) : Prop :=
  call.Asked ∧ unreadSize (connection.send call) ≤ call.timing.inTime

/-- A query that is told something is told what was computed for it, and a reply that is
complete before the timeout is told. -/
def Right (answers : Answers) (connection : Connection) (call : Call) : Prop :=
  ((clientQuery answers connection call).1.ret = true →
      own answers connection call = some (clientQuery answers connection call).1.usage) ∧
    ∀ usage, own answers connection call = some usage → InTime connection call →
      (clientQuery answers connection call).1 = ⟨true, usage⟩

/-- A whole reply is only read when nothing else was left to read; and a reply that is
complete before the timeout is there as a whole when `select` returns. -/
def Meets (connection : Connection) (call : Call) : Prop :=
  (Succeeds connection call → CaughtUp connection) ∧
    (Answered connection call → InTime connection call →
      CaughtUp connection ∧ replySize ≤ call.timing.ready)

theorem own_eq_some_iff {answers : Answers} {connection : Connection} {call : Call}
    {usage : Usage} :
    own answers connection call = some usage ↔ Answered connection call ∧
      answers (packetFraming.decode connection.sent).tokens.length call.entry = usage := by
  unfold own
  constructor
  · intro equal
    split at equal
    next answered => exact ⟨answered, Option.some.inj equal⟩
    next => cases equal
  · rintro ⟨answered, equal⟩
    rw [if_pos answered, equal]

theorem right_of_meets {connection : Connection} {call : Call} (meets : Meets connection call)
    (answers : Answers) : Right answers connection call := by
  have told : Succeeds connection call → ∃ usage, own answers connection call = some usage ∧
      (clientQuery answers connection call).1 = ⟨true, usage⟩ := by
    intro succeeds
    have caughtUp := meets.1 succeeds
    have reply := caughtUp.unread_send answers succeeds.1
    cases mine : own answers connection call with
    | none =>
        rw [mine] at reply
        have size := unread_length answers (connection.send call)
        have full := succeeds.2
        rw [reply] at size
        rw [readSize, ← size] at full
        simp [replySize] at full
    | some usage =>
        rw [mine] at reply
        refine ⟨usage, rfl, ?_⟩
        rw [clientQuery_eq, if_pos succeeds, reply]
        simp only
        rw [List.take_of_length_le (Nat.le_of_eq (writes_length usage)), readUsage_writes]
  constructor
  · intro ret
    have succeeds : Succeeds connection call := by
      by_contra fails
      rw [clientQuery_eq, if_neg fails] at ret
      cases ret
    rcases told succeeds with ⟨usage, mine, result⟩
    rw [mine, result]
  · intro usage mine inTime
    have answered := (own_eq_some_iff.mp mine).1
    rcases meets.2 answered inTime with ⟨caughtUp, ready⟩
    have reply := caughtUp.unread_send answers inTime.1
    rw [mine] at reply
    have succeeds : Succeeds connection call := by
      refine ⟨inTime.1, ?_⟩
      have size := unread_length answers (connection.send call)
      rw [reply] at size
      simp only [writes_length] at size
      rw [readSize, ← size]
      omega
    rcases told succeeds with ⟨other, same, result⟩
    cases mine.symm.trans same
    exact result

/-! ## Telling apart whose reply it is -/

/-- A daemon that computes something else for one packet than for all others. -/
def marking (position : Nat) : Answers :=
  fun before _ => if before = position then ⟨-1, 0⟩ else ⟨0, 0⟩

theorem mem_repliesFrom_marking {position before : Nat} {payloads : List (List UInt8)}
    (early : before + payloads.length ≤ position) {byte : UInt8}
    (member : byte ∈ repliesFrom (marking position) before payloads) : byte = 0 := by
  induction payloads generalizing before with
  | nil => cases member
  | cons payload rest induction =>
      rw [List.length_cons] at early
      rw [repliesFrom] at member
      rcases List.mem_append.mp member with own | later
      · have other : marking position before payload = ⟨0, 0⟩ :=
          if_neg (show before ≠ position by omega)
        have zeros : (Usage.mk 0 0).writes.flatten = List.replicate 16 0 := by decide
        split at own
        · cases own
        · rw [other, zeros] at own
          exact List.eq_of_mem_replicate own
      · exact induction (by omega) later

theorem readUsage_of_head_zero {b : List UInt8} (size : b.length = replySize)
    (head : b.head? = some 0) : (readUsage b).susage ≠ -1 := by
  cases b with
  | nil => cases size
  | cons byte rest =>
      cases head
      have seven : (rest.take 7).length = 7 := by
        rw [List.length_take_of_le]
        rw [List.length_cons, replySize] at size
        omega
      have small := ofNetwork_lt (rest.take 7)
      rw [seven] at small
      intro equal
      have value := congrArg UInt64.toNat equal
      rw [readUsage, List.take_succ_cons, ofNetwork_cons, UInt64.toNat_ofNat',
        show (-1 : UInt64).toNat = 2 ^ 64 - 1 from rfl, show (0 : UInt8).toNat = 0 from rfl] at value
      omega

theorem meets_of_right {connection : Connection} {call : Call} (within : Within connection)
    (right : ∀ answers, Right answers connection call) : Meets connection call := by
  have caught : Succeeds connection call → CaughtUp connection := by
    intro succeeds
    let position := (packetFraming.decode connection.sent).tokens.length
    have result := clientQuery_eq (marking position) connection call
    rw [if_pos succeeds] at result
    have mine := (right (marking position)).1
    rw [result] at mine
    rcases own_eq_some_iff.mp (mine rfl) with ⟨answered, usage⟩
    refine ⟨answered.1, answered.2.1, ?_⟩
    by_contra behind
    have less : connection.received < (replies (marking position) connection.sent).length := by
      rw [replies_length]
      exact Nat.lt_of_le_of_ne within behind
    rcases replies_append (marking position) connection.sent
      (call.packet.take call.timing.sent) with ⟨later, whole⟩
    have sent : (connection.send call).sent =
        connection.sent ++ call.packet.take call.timing.sent := rfl
    have left : unread (marking position) (connection.send call) =
        (replies (marking position) connection.sent).drop connection.received ++
          repliesFrom (marking position) position later := by
      rw [unread, sent, whole]
      exact List.drop_append_of_le_length (Nat.le_of_lt less)
    have size : ((unread (marking position) (connection.send call)).take replySize).length =
        replySize := by
      have full := succeeds.2
      rw [readSize] at full
      rw [List.length_take, unread_length]
      omega
    have head : ((unread (marking position) (connection.send call)).take replySize).head? =
        some 0 := by
      rw [left, List.drop_eq_getElem_cons less, List.cons_append]
      have zero : (replies (marking position) connection.sent)[connection.received] = 0 :=
        mem_repliesFrom_marking (Nat.le_of_eq (Nat.zero_add _)) (List.getElem_mem less)
      rw [replySize, List.take_succ_cons, List.head?_cons, zero]
    have susage := congrArg Usage.susage usage
    have marked : marking position position call.entry = ⟨-1, 0⟩ := if_pos rfl
    rw [show (packetFraming.decode connection.sent).tokens.length = position from rfl,
      marked] at susage
    exact readUsage_of_head_zero size head susage.symm
  refine ⟨caught, ?_⟩
  intro answered inTime
  have mine : own (marking 0) connection call = some _ := if_pos answered
  have result := (right (marking 0)).2 _ mine inTime
  have succeeds : Succeeds connection call := by
    by_contra fails
    rw [clientQuery_eq, if_neg fails] at result
    cases result
  refine ⟨caught succeeds, ?_⟩
  have full := succeeds.2
  rw [readSize] at full
  omega

/-! ## Runs of queries on one connection -/

/-- Every query of a run is told what it asked for. -/
def RightRun (answers : Answers) : Connection → List Call → Prop
  | _, [] => True
  | connection, call :: calls =>
      Right answers connection call ∧ RightRun answers (clientQuery answers connection call).2 calls

/-- Every query of a run meets the condition where it is made. -/
def MeetsRun : Connection → List Call → Prop
  | _, [] => True
  | connection, call :: calls => Meets connection call ∧ MeetsRun (after connection call) calls

theorem rightRun_iff {connection : Connection} (within : Within connection)
    (calls : List Call) :
    (∀ answers, RightRun answers connection calls) ↔ MeetsRun connection calls := by
  induction calls generalizing connection with
  | nil => exact ⟨fun _ => trivial, fun _ _ => trivial⟩
  | cons call calls induction =>
      have next : ∀ answers, (clientQuery answers connection call).2 = after connection call := by
        intro answers
        rw [clientQuery_eq]
      have later := induction (within_after within call)
      constructor
      · intro right
        refine ⟨meets_of_right within fun answers => (right answers).1, later.mp fun answers => ?_⟩
        rw [← next answers]
        exact (right answers).2
      · rintro ⟨meets, rest⟩ answers
        refine ⟨right_of_meets meets answers, ?_⟩
        rw [next]
        exact later.mpr rest answers

/-! ### Prompt replies -/

/-- A query whose reply is there as a whole when `select` returns. -/
structure Prompt (call : Call) : Prop where
  asked : call.Asked
  nonempty : call.entry ≠ []
  small : call.entry.length ≤ packetMaxQuerySize
  ready : replySize ≤ call.timing.ready

/-- A client that is told something stays caught up. -/
theorem CaughtUp.after_prompt {connection : Connection} (caughtUp : CaughtUp connection)
    {call : Call} (prompt : Prompt call) : CaughtUp (after connection call) := by
  have asked := prompt.asked
  have answered : Answered connection call :=
    ⟨caughtUp.accepted, caughtUp.rest, prompt.nonempty, prompt.small⟩
  have sent : (connection.send call).sent = connection.sent ++ call.packet := by
    rw [Connection.send, List.take_of_length_le (by rw [packet_length]; exact asked.1)]
  have decoded := packetFraming.decode_append connection.sent call.packet
  rw [caughtUp.accepted, if_pos rfl, caughtUp.rest, List.nil_append,
    decode_packet call prompt.small] at decoded
  have reply := caughtUp.unread_send (marking 0) asked
  have mine : own (marking 0) connection call = some _ := if_pos answered
  rw [mine] at reply
  have size := unread_length (marking 0) (connection.send call)
  rw [reply] at size
  simp only [writes_length] at size
  have read : readSize connection call = replySize := by
    have ready := prompt.ready
    rw [readSize]
    omega
  have received : (connection.send call).received = connection.received := rfl
  rw [after, if_pos asked, read]
  refine ⟨?_, ?_, ?_⟩
  · simp only [sent, decoded]
  · simp only [sent, decoded]
  · rw [unreadSize, received] at size
    have replySize_pos : 0 < replySize := by decide
    simp only
    omega

theorem CaughtUp.new : CaughtUp Connection.new := ⟨rfl, rfl, rfl⟩

theorem meetsRun_of_prompt {connection : Connection} (caughtUp : CaughtUp connection)
    {calls : List Call} (prompt : ∀ call ∈ calls, Prompt call) : MeetsRun connection calls := by
  induction calls generalizing connection with
  | nil => trivial
  | cons call calls induction =>
      have first := prompt call List.mem_cons_self
      refine ⟨⟨fun _ => caughtUp, fun _ _ => ⟨caughtUp, first.ready⟩⟩, ?_⟩
      exact induction (caughtUp.after_prompt first) fun later member =>
        prompt later (List.mem_cons_of_mem _ member)

/-! ## Comparing with quotas -/

/-- The query for the user, if there is a quota to compare with. -/
def userCalls (email : List UInt8) (squota cquota : UInt64) (timing : Timing) : List Call :=
  if squota ≠ 0 || cquota ≠ 0 then [stringCall email timing] else []

def domainCall (email : List UInt8) (timing : Timing) : Call :=
  stringCall (email.dropWhile (· ≠ atSign)) timing

/-- The connection on which the domain is asked for. -/
def afterAll (calls : List Call) : Connection := calls.foldl after Connection.new

theorem MeetsRun.last {connection : Connection} {calls : List Call} {call : Call}
    (meets : MeetsRun connection (calls ++ [call])) : Meets (calls.foldl after connection) call := by
  induction calls generalizing connection with
  | nil => exact meets.1
  | cons first calls induction => exact induction meets.2

theorem compareDomain_own {answers : Answers} {email : List UInt8} {limits : Option Vlimits}
    {timing : Timing} {connection : Option Connection} {asked : Connection}
    (same : ∀ held, connection = some held → held = asked)
    (meets : Meets asked (domainCall email timing))
    (exceeded : compareDomain answers email limits timing connection = 2) :
    ∃ found usage, limits = some found ∧
      own answers asked (domainCall email timing) = some usage ∧
      overDomainQuota found usage = true := by
  unfold compareDomain at exceeded
  simp only at exceeded
  split at exceeded
  · cases exceeded
  · split at exceeded
    · cases exceeded
    next found =>
      split at exceeded
      · cases exceeded
      next held =>
        split at exceeded
        next told =>
          rw [Bool.and_eq_true, Bool.and_eq_true] at told
          rw [same held rfl] at told
          exact ⟨found, _, rfl, (right_of_meets meets answers).1 told.1.1, told.2⟩
        next => cases exceeded

/-- A domain is over its quota by its own usage. -/
theorem quotaCompare_own {answers : Answers} {email : List UInt8} {squota cquota : UInt64}
    {limits : Option Vlimits} {connects : Bool} {userTiming domainTiming : Timing}
    (meets : MeetsRun Connection.new
      (userCalls email squota cquota userTiming ++ [domainCall email domainTiming]))
    (exceeded : quotaCompare answers email squota cquota limits connects userTiming
      domainTiming = 2) :
    ∃ found usage, limits = some found ∧
      own answers (afterAll (userCalls email squota cquota userTiming))
        (domainCall email domainTiming) = some usage ∧
      overDomainQuota found usage = true := by
  have last := meets.last
  unfold quotaCompare at exceeded
  unfold afterAll userCalls at *
  simp only at exceeded
  split at exceeded
  next quota =>
    rw [if_pos quota] at last ⊢
    cases connects with
    | false => cases exceeded
    | true =>
        simp only [if_true] at exceeded
        split at exceeded
        · cases exceeded
        · refine compareDomain_own ?_ last exceeded
          intro held equal
          rw [clientQuery_eq] at equal
          exact (Option.some.inj equal).symm
  next none =>
    rw [if_neg none] at last ⊢
    refine compareDomain_own ?_ last exceeded
    intro held equal
    cases connects with
    | false => cases equal
    | true => exact (Option.some.inj equal).symm

/-- Every query of a run gets its own answer, whatever the daemon computes, if and only if
the run meets the condition; and then `quota_compare` judges a domain by its own usage. -/
theorem queries_right (calls : List Call) :
    ((∀ answers, RightRun answers Connection.new calls) ↔ MeetsRun Connection.new calls) ∧
      ∀ (answers : Answers) (email : List UInt8) (squota cquota : UInt64)
        (limits : Option Vlimits) (connects : Bool) (userTiming domainTiming : Timing),
        MeetsRun Connection.new
            (userCalls email squota cquota userTiming ++ [domainCall email domainTiming]) →
          quotaCompare answers email squota cquota limits connects userTiming domainTiming = 2 →
          ∃ found usage, limits = some found ∧
            own answers (afterAll (userCalls email squota cquota userTiming))
              (domainCall email domainTiming) = some usage ∧
            overDomainQuota found usage = true :=
  ⟨rightRun_iff within_new calls,
    fun _ _ _ _ _ _ _ _ meets exceeded => quotaCompare_own meets exceeded⟩

def promptTiming : Timing := ⟨100, false, 16, 16, Nat.le_refl 16, nofun⟩

/-- Five megabytes in a domain that may have one: the user is within the quota. -/
theorem queries_right_prompt :
    ∃ found usage, some { vdefaultLimits with diskquota := 1 } = some found ∧
      own (fun _ _ => ⟨5000000, 10⟩) (afterAll (userCalls [117, 64, 100] 9000000 0 promptTiming))
        (domainCall [117, 64, 100] promptTiming) = some usage ∧
      overDomainQuota found usage = true := by
  refine (queries_right []).2 _ _ 9000000 0 _ true promptTiming promptTiming
    (meetsRun_of_prompt CaughtUp.new ?_) (by decide +kernel)
  intro call member
  have calls : call = stringCall [117, 64, 100] promptTiming ∨
      call = domainCall [117, 64, 100] promptTiming := by
    simpa [userCalls] using member
  rcases calls with rfl | rfl
  · exact ⟨⟨by decide, rfl⟩, by decide, by decide, by decide⟩
  · exact ⟨⟨by decide, rfl⟩, by decide, by decide, by decide⟩

/-- The reply about the user comes after the timeout, and the query about the domain
reads it. -/
theorem not_queries_right :
    ¬∀ (calls : List Call) (answers : Answers), RightRun answers Connection.new calls := by
  intro right
  let late : Timing := ⟨100, false, 0, 0, Nat.le_refl 0, fun _ => rfl⟩
  let next : Timing := ⟨100, false, 16, 32, by decide, nofun⟩
  have meets := (rightRun_iff within_new _).mp
    (right [stringCall [117, 64, 100] late, domainCall [117, 64, 100] next])
  have succeeds : Succeeds (after Connection.new (stringCall [117, 64, 100] late))
      (domainCall [117, 64, 100] next) := by
    decide +kernel
  have read := (meets.2.1.1 succeeds).read
  revert read
  decide +kernel

end Vpopmail.Client

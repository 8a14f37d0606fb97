import Vpopmail.Vlimits
import Vpopmail.Vusaged.PacketFraming

/-! # Asking the usage daemon

`client.c` asks over one connection, whose replies come in the order of the
packets that have been sent, and `quota.c` judges by what it is told. A connection
is what has been sent on it and how much of the replies has been read.
-/

namespace Vpopmail.Client

open Wire Vusaged

/-- What the daemon computes for the packet with some packets before it. -/
abbrev Answers := Nat → List UInt8 → Usage

/-- The replies to packets, after a number of packets. -/
def repliesFrom (answers : Answers) : (before : Nat) → List (List UInt8) → List UInt8
  | _, [] => []
  | before, payload :: rest =>
      (if payload = [] then [] else (answers before payload).writes.flatten) ++
        repliesFrom answers (before + 1) rest

/-- The replies to all that has been sent. -/
def replies (answers : Answers) (sent : List UInt8) : List UInt8 :=
  repliesFrom answers 0 (packetFraming.decode sent).tokens

structure Connection where
  sent : List UInt8
  received : Nat

def unread (answers : Answers) (connection : Connection) : List UInt8 :=
  (replies answers connection.sent).drop connection.received

/-- How the system calls of a query go: how many bytes of the packet are taken, whether
`select` or `read` fails, how many unread bytes there are when `select` returns (none at
the timeout) and how many come before the timeout. -/
structure Timing where
  sent : Nat
  interrupted : Bool
  ready : Nat
  inTime : Nat
  waits : ready ≤ inTime
  wakes : ready = 0 → inTime = 0

/-- A query of `len` bytes, which is a `uint16_t`. -/
structure Call where
  entry : List UInt8
  timing : Timing
  fits : entry.length < 65536

structure QueryResult where
  ret : Bool
  usage : Usage

def QueryResult.failed : QueryResult := ⟨false, notMonitored⟩

/-- `ntohll` of the bytes of each half of the buffer. -/
def readUsage (b : List UInt8) : Usage :=
  ⟨UInt64.ofNat (ofNetwork (b.take 8)), UInt64.ofNat (ofNetwork (b.drop 8))⟩

/-- The length, after `htons`, and the entry. -/
def Call.packet (call : Call) : List UInt8 := toNetwork 2 call.entry.length ++ call.entry

def Connection.send (connection : Connection) (call : Call) : Connection :=
  { connection with sent := connection.sent ++ call.packet.take call.timing.sent }

/-- The size of a reply, `sizeof(storage_t) * 2`. -/
def replySize : Nat := 16

def clientQuery (answers : Answers) (connection : Connection) (call : Call) :
    QueryResult × Connection :=
  let connection := connection.send call
  if call.timing.sent < 2 then (.failed, connection)
  else if call.timing.sent - 2 < call.entry.length then (.failed, connection)
  else if call.timing.interrupted then (.failed, connection)
  else if call.timing.ready = 0 then (.failed, connection)
  else
    let b := ((unread answers connection).take call.timing.ready).take replySize
    let connection := { connection with received := connection.received + b.length }
    if b.length = 0 then (.failed, connection)
    else if b.length ≠ replySize then (.failed, connection)
    else (⟨true, readUsage b⟩, connection)

/-- `client_connect`. -/
def Connection.new : Connection := ⟨[], 0⟩

/-! ## Comparing with quotas -/

/-- Over a quota of bytes or of messages, where a quota of 0 is none. -/
def overUserQuota (squota cquota : UInt64) (usage : Usage) : Bool :=
  (squota ≠ 0 && squota ≤ usage.susage) || (cquota ≠ 0 && cquota ≤ usage.cusage)

/-- The limits of a domain are an `int`, which is converted to a `storage_t`. -/
def overDomainQuota (limits : Vlimits) (usage : Usage) : Bool :=
  (limits.diskquota ≠ 0 && usage.susage ≠ 0 &&
      UInt64.ofBitVec (limits.diskquota.signExtend 64) ≤ usage.susage / 1000000) ||
    (limits.maxmsgcount ≠ 0 &&
      UInt64.ofBitVec (limits.maxmsgcount.signExtend 64) ≤ usage.cusage)

/-- A query for a C string, the length of which is cut to a `uint16_t`. -/
def stringCall (text : List UInt8) (timing : Timing) : Call where
  entry := text.take (text.length % 65536)
  timing := timing
  fits := by
    rw [List.length_take]
    omega

/-- The second half of `quota_compare`. -/
def compareDomain (answers : Answers) (email : List UInt8) (limits : Option Vlimits)
    (timing : Timing) (connection : Option Connection) : Nat :=
  let p := email.dropWhile (· ≠ atSign)
  if p = [] then 0
  else
    match limits with
    | none => 0
    | some limits =>
        match connection with
        | none => 0
        | some connection =>
            let result := (clientQuery answers connection (stringCall p timing)).1
            if result.ret && result.usage.susage ≠ -1 &&
                overDomainQuota limits result.usage then 2
            else 0

/-- `quota_compare`, given the two numbers of the quota, what `vget_limits` finds, whether
`client_connect` works, and how its queries go. -/
def quotaCompare (answers : Answers) (email : List UInt8) (squota cquota : UInt64)
    (limits : Option Vlimits) (connects : Bool) (userTiming domainTiming : Timing) :
    Nat :=
  let handle := if connects then some Connection.new else none
  if squota ≠ 0 || cquota ≠ 0 then
    match handle with
    | none => 0
    | some connection =>
        let (result, connection) := clientQuery answers connection (stringCall email userTiming)
        if result.ret && result.usage.susage ≠ -1 && overUserQuota squota cquota result.usage then 1
        else compareDomain answers email limits domainTiming (some connection)
  else compareDomain answers email limits domainTiming handle

end Vpopmail.Client

import Vpopmail.Foundation.Buffer
import Vpopmail.Foundation.Decimal
import Vpopmail.Foundation.Interleaving
import Vpopmail.Types

/-! # The table of relay addresses

`open_smtp_relay` of the cdb backend adds the address of a login to the `open-smtp`
file, and `clearopensmtp` takes the old entries out. Both write a new file and rename
it. The steps of several processes come in any order.
-/

namespace Vpopmail.Relay

open Vpopmail Text Vpopmail.Stream Buffer Interleaving

/-! ## The address -/

/-- The characters of `ok_env_chars`. -/
def okEnvChar (char : Char) : Bool :=
  char ∈ ("abcdefghijklmnopqrstuvwxyz" ++ "ABCDEFGHIJKLMNOPQRSTUVWXYZ" ++
    "1234567890_-.@").toList

/-- The size of `ipbuf`. -/
def ipbufSize : Nat := 30

/-- The part of an address in the form `::ffff:127.0.0.1` that is used. -/
def mappedAddress : List Char → List Char
  | ':' :: rest => (rest.tail.dropWhile (· ≠ ':')).tail
  | ipaddr => ipaddr

/-- `get_remote_ip` on `TCPREMOTEIP` or, when that is not set, `REMOTE_HOST`. A text of
30 characters leaves no room for the terminator. -/
def getRemoteIp (ipenv : Option (List Char)) : Checked (Option (List Char)) :=
  match ipenv with
  | none => .ok none
  | some ipenv =>
      if ipenv.length > ipbufSize then .ok (some ipenv)
      else if ipenv.length = ipbufSize then .error .outOfBounds
      else .ok (some ((mappedAddress ipenv).map fun char => if okEnvChar char then char else '_'))

/-! ## Lines -/

/-- The line that `open_smtp_relay` prints. -/
def relayLine (ipaddr : List Char) (mytime : Nat) : List Char :=
  ipaddr ++ ':' :: "allow,RELAYCLIENT=\"\",RBLSMTPD=\"\"".toList ++
    '\t' :: Decimal.spellInt (BitVec.ofNat 32 mytime).toInt ++ ['\n']

def colonDelimits (char : Char) : Bool := char = ':'

def tabDelimits (char : Char) : Bool := char = '\t'

/-- The address that `open_smtp_relay` finds in a line, if it has a token. -/
def lineIp (chunk : List Char) : Option (List Char) :=
  (strtok colonDelimits (cstring chunk)).map Prod.fst

/-- The time that `clearopensmtp` finds in a line, if it has a second token. -/
def lineTime (chunk : List Char) : Option Int :=
  (strtok tabDelimits (cstring chunk)).bind fun (_, rest) =>
    (strtok tabDelimits rest).map fun (stamp, _) => Decimal.atoi stamp

/-- The copying loop of `open_smtp_relay`, and whether the address is a new one. A line
without a token has a null pointer compared. -/
def copyOthers (ipaddr : List Char) : List (List Char) → Checked (List Char × Bool)
  | [] => .ok ([], true)
  | chunk :: chunks =>
      match lineIp chunk with
      | none => .error .outOfBounds
      | some address =>
          (copyOthers ipaddr chunks).map fun (text, rebuild) =>
            if address ≠ ipaddr then (cstring chunk ++ text, rebuild) else (text, false)

/-- The copying loop of `clearopensmtp`. -/
def copyYoung (clear mytime : Nat) (chunks : List (List Char)) : List Char :=
  (chunks.filter fun chunk =>
    match lineTime chunk with
    | none => false
    | some fileTime => fileTime + clear > mytime).flatMap cstring

/-! ## Files -/

/-- The clock, the files by their inodes, the inodes of `open-smtp` and `open-smtp.tmp`,
and the lock on `open-smtp.lock`. -/
structure RelayFiles where
  now : Nat
  inodes : List (List Char)
  cur : Option Nat
  tmp : Option Nat
  locked : Bool
  deriving DecidableEq

/-- What a step finds in its surroundings: the seconds since the last step, whether the
lock is granted before the attempts are used up, whether files can be opened, and
whether `update_rules` succeeds. -/
structure Moment where
  elapsed : Nat
  granted : Bool
  opened : Bool
  updated : Bool

namespace RelayFiles

variable (files : RelayFiles)

def wait (elapsed : Nat) : RelayFiles := { files with now := files.now + elapsed }

def unlock (holds : Bool) : RelayFiles :=
  { files with locked := files.locked && !holds }

/-- The name `open-smtp` on a new file. -/
def install (text : List Char) : RelayFiles :=
  { files with inodes := files.inodes ++ [text], cur := some files.inodes.length }

/-- `fopen` of `open-smtp` with `w+`. -/
def createCur : RelayFiles × Nat :=
  match files.cur with
  | none => (files.install [], files.inodes.length)
  | some inode => ({ files with inodes := files.inodes.set inode [] }, inode)

/-- `fopen` of `open-smtp.tmp` with `w+`. -/
def createTmp : RelayFiles × Nat :=
  match files.tmp with
  | none =>
      ({ files with inodes := files.inodes ++ [[]], tmp := some files.inodes.length },
        files.inodes.length)
  | some inode => ({ files with inodes := files.inodes.set inode [] }, inode)

/-- Writing a text at the start of an open file. -/
def write (inode : Nat) (text : List Char) : RelayFiles :=
  { files with
    inodes := files.inodes.modify inode fun there => text ++ there.drop text.length }

/-- `rename` of `open-smtp.tmp` to `open-smtp`. -/
def renameTmp : RelayFiles :=
  match files.tmp with
  | none => files
  | some inode => { files with cur := some inode, tmp := none }

/-- The contents of an open file. -/
def read (inode : Nat) : List Char := files.inodes[inode]?.getD []

end RelayFiles

/-! ## Processes -/

/-- How far a process has come. The temporary file of `open_smtp_relay` has the name of
the process and belongs to it alone. -/
inductive Operation
  /-- `open_smtp_relay` before `time`. -/
  | openSmtpRelay (ipenv : Option (List Char))
  /-- Before `get_write_lock`, whose result is not looked at. -/
  | locking (ipaddr : List Char) (mytime : Nat)
  /-- Before `open-smtp` is opened with `r+`. -/
  | opening (ipaddr : List Char) (mytime : Nat) (holds : Bool)
  /-- Before `open-smtp` is opened with `w+`. -/
  | creating (ipaddr : List Char) (mytime : Nat) (holds : Bool)
  | reading (ipaddr : List Char) (mytime : Nat) (holds : Bool) (inode : Nat)
  /-- The new file is written. -/
  | replacing (ipaddr : List Char) (mytime : Nat) (holds : Bool) (inode : Nat)
      (content written : List Char) (rebuild : Bool)
  /-- Before `update_rules` and the unlocking. -/
  | updating (ipaddr : List Char) (mytime : Nat) (holds rebuild : Bool)
  | completed (ipaddr : List Char) (mytime : Nat)
  | returned (ret : Int)
  /-- `clearopensmtp` before `time`. -/
  | clearopensmtp
  | clearOpening (mytime : Nat)
  /-- Before `open-smtp.tmp` is opened with `w+`. -/
  | clearCreating (mytime inode : Nat)
  | clearReading (mytime inode tmp : Nat)
  | clearWriting (mytime inode tmp : Nat) (content : List Char)
  | clearRenaming (mytime inode tmp : Nat) (content : List Char)
  | cleared
  deriving DecidableEq

/-- The next step of a process at the present time. A fault ends it and is no step. -/
def act (clear : Nat) (moment : Moment) (files : RelayFiles) :
    Operation → Option (RelayFiles × Option Operation)
  | .openSmtpRelay ipenv =>
      match getRemoteIp ipenv with
      | .error _ => none
      | .ok none => some (files, some (.returned 0))
      | .ok (some ipaddr) => some (files, some (.locking ipaddr files.now))
  | .locking ipaddr mytime =>
      if !moment.granted then some (files, some (.opening ipaddr mytime false))
      else if files.locked then none
      else some ({ files with locked := true }, some (.opening ipaddr mytime true))
  | .opening ipaddr mytime holds =>
      match if moment.opened then files.cur else none with
      | none => some (files, some (.creating ipaddr mytime holds))
      | some inode => some (files, some (.reading ipaddr mytime holds inode))
  | .creating ipaddr mytime holds =>
      if !moment.opened then some (files.unlock holds, some (.returned (-1)))
      else
        let (files, inode) := files.createCur
        some (files, some (.reading ipaddr mytime holds inode))
  | .reading ipaddr mytime holds inode =>
      if !moment.opened then some (files.unlock holds, some (.returned (-1)))
      else
        let content := files.read inode
        match copyOthers ipaddr (fgetsLoop maxBuff content) with
        | .error _ => none
        | .ok (text, rebuild) =>
            let written := text ++ relayLine ipaddr mytime
            some (files, some (.replacing ipaddr mytime holds inode content written rebuild))
  | .replacing ipaddr mytime holds _ _ written rebuild =>
      some (files.install written, some (.updating ipaddr mytime holds rebuild))
  | .updating ipaddr mytime holds rebuild =>
      if rebuild && !moment.updated then some (files.unlock holds, some (.returned (-1)))
      else some (files.unlock holds, some (.completed ipaddr mytime))
  | .completed _ _ => none
  | .returned _ => none
  | .clearopensmtp => some (files, some (.clearOpening files.now))
  | .clearOpening mytime =>
      match if moment.opened then files.cur else none with
      | none => some (files, some .cleared)
      | some inode => some (files, some (.clearCreating mytime inode))
  | .clearCreating mytime inode =>
      if !moment.opened then some (files, some (.returned (-1)))
      else
        let (files, tmp) := files.createTmp
        some (files, some (.clearReading mytime inode tmp))
  | .clearReading mytime inode tmp =>
      some (files, some (.clearWriting mytime inode tmp (files.read inode)))
  | .clearWriting mytime inode tmp content =>
      some (files.write tmp (copyYoung clear mytime (fgetsLoop maxBuff content)),
        some (.clearRenaming mytime inode tmp content))
  | .clearRenaming _ _ _ _ => some (files.renameTmp, some .cleared)
  | .cleared => none

inductive Program
  | openSmtpRelay (ipenv : Option (List Char))
  | clearopensmtp

def launch : Program → Operation
  | .openSmtpRelay ipenv => .openSmtpRelay ipenv
  | .clearopensmtp => .clearopensmtp

/-- Any number of logins and cleaning runs. Entries expire after `clear` seconds. -/
def processes (clear : Nat) : System RelayFiles Operation Program Moment where
  launch := launch
  advance := fun moment files operation => act clear moment (files.wait moment.elapsed) operation

/-! ## The condition -/

/-- An address that a line can hold. -/
structure Relayable (ipaddr : List Char) : Prop where
  nonempty : ipaddr ≠ []
  colonFree : Free ':' ipaddr
  tabFree : Free '\t' ipaddr
  newlineFree : Free '\n' ipaddr
  nulFree : Free nul ipaddr
  short : ipaddr.length < 240

/-- The address of an entry, in front of the colon. -/
def lineAddress (line : List Char) : List Char := line.takeWhile (· ≠ ':')

/-- No line of the address has a later time. -/
def NotNewer (ipaddr : List Char) (mytime : Nat) (content : List Char) : Prop :=
  ∀ line ∈ fgetsLoop maxBuff content, lineAddress line = ipaddr →
    ∀ fileTime ∈ lineTime line, fileTime ≤ mytime

/-- A process that is about to rename its file has read the file that `open-smtp` still
is. A cleaning run has `open-smtp.tmp` to itself. -/
def Undisturbed (clear : Nat) (files : RelayFiles) (operation : Operation) (_ : Moment) : Prop :=
  match operation with
  | .creating _ _ _ => files.cur = none
  | .replacing ipaddr mytime _ inode content _ _ =>
      Relayable ipaddr ∧ mytime < 2 ^ 31 ∧ files.cur = some inode ∧
        NotNewer ipaddr mytime content
  | .clearWriting _ _ tmp _ => files.tmp = some tmp
  | .clearRenaming mytime inode tmp content =>
      files.cur = some inode ∧ files.tmp = some tmp ∧
        files.read tmp = copyYoung clear mytime (fgetsLoop maxBuff content)
  | _ => True

/-! ## The property -/

/-- The lines of `open-smtp`. -/
def relayLines (files : RelayFiles) : List (List Char) :=
  match files.cur with
  | none => []
  | some inode => fgetsLoop maxBuff (files.read inode)

/-- The address has an entry that is at least as young. -/
def Present (files : RelayFiles) (ipaddr : List Char) (mytime : Nat) : Prop :=
  ∃ line ∈ relayLines files, lineAddress line = ipaddr ∧
    ∃ fileTime ∈ lineTime line, (mytime : Int) ≤ fileTime

/-- No address has two lines. -/
def OncePerAddress (files : RelayFiles) : Prop := ((relayLines files).map lineAddress).Nodup

end Vpopmail.Relay

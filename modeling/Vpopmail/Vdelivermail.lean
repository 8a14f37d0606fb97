import Vpopmail.Foundation.Text
import Vpopmail.Types

/-! # Delivery of a message to a list of destinations

`deliver_mail` takes one line of an alias or a `.qmail` file. What it decides it keeps in
global variables, and it reads the message from descriptor 0.
-/

namespace Vpopmail.Vdelivermail

open Vpopmail Text

/-! ## Surroundings -/

structure Switches where
  spamassassin : Bool
  maildrop : Bool
  makeSeekable : Bool
  domainQuotas : Bool

/-- The fields of `struct vlimits` that are read. -/
structure Limits where
  disableSpamassassin : Int
  disableMaildrop : Int
  deleteSpam : Int

/-- What `vauth_getpw` makes of its arguments, and the `pw_gid` that it finds. -/
structure Lookup where
  user : List Char
  domain : List Char
  pwGid : Option (BitVec 32)

/-- What stays the same while a message is delivered. `parse_email` leaves two names even
when it reports an error, and `spamc` turns its input into its output. -/
structure Mailer where
  switches : Switches
  message : List Char
  rpline : List Char
  dtline : Option (List Char)
  bounce : List Char
  limits : List Char → Limits
  maildirToEmail : List Char → List Char
  parseEmail : List Char → List Char × List Char
  getpw : List Char → List Char → Lookup
  getpwLong : List Char → Option (BitVec 32)
  spamc : List Char → List Char → List Char

/-- A Maildir's answers: the new file can be opened, and `link` finds its name free or
`rename` replaces the file of that name. `stale` is in the buffer for the copy. -/
structure Maildir where
  opens : Bool
  links : Bool
  renames : Bool
  stale : List Char

/-- What the system answers during one call of `deliver_mail`. A read returns any part of
what is left, so `reads` is some way to cut a text into pieces. -/
structure Answers where
  looping : Bool
  scanned : List Char → List Char
  taken : List Char → List Char
  forks : Bool
  reads : List Char → List (List Char)
  reads_flatten : ∀ text, (reads text).flatten = text
  reads_nonempty : ∀ text, [] ∉ reads text
  quotaApplies : Bool
  overQuota : Bool
  nearQuota : Bool
  overDomain : Bool
  date : List Char
  warning : Option (List Char)
  warned : Maildir
  mailed : Maildir
  exitCode : Nat
  maildropCode : Nat

/-! ## State -/

/-- Descriptor 0 is a file that can be rewound, or a pipe. -/
inductive Input
  | file (content unread : List Char)
  | pipe (unread : List Char)

namespace Input

def unread : Input → List Char
  | file _ unread => unread
  | pipe unread => unread

def leave (unread : List Char) : Input → Input
  | file content _ => file content unread
  | pipe _ => pipe unread

/-- `lseek` to the start, which fails on a pipe. -/
def rewind : Input → Input
  | file content _ => file content content
  | pipe unread => pipe unread

/-- `MakeSeekable` copies the pipe to a file. -/
def makeSeekable : Input → Input
  | file content unread => file content unread
  | pipe unread => file unread []

/-- `get_message_size`. -/
def size : Input → Int
  | file content _ => content.length
  | pipe _ => -1

end Input

inductive Kind
  | maildir
  | warning
  | forward
  deriving DecidableEq

structure Delivery where
  kind : Kind
  target : List Char
  headers : List Char
  body : List Char
  deriving DecidableEq

/-- The global variables. `vpw` points to the one record that every `vauth_getpw` fills,
of which `pwGid` is read. -/
structure Process where
  deleteMail : Bool
  inHeaders : Bool
  isLocal : Bool
  vpw : Bool
  pwGid : BitVec 32
  theUser : List Char
  theDomain : List Char
  messageSize : Int
  input : Input
  deliveries : List Delivery

/-- The program ends: `vexit`, or an access that the language does not allow. -/
inductive Ended
  | exit (code : Nat)
  | fault
  deriving DecidableEq

def exitBounce : Nat := 100

def exitDefer : Nat := 111

/-! ## Copying -/

def spamFlag : List Char := "X-Spam-Flag: YES".toList

/-- `is_spam` on the cells of its buffer: whether the flag is found, and whether the headers
go on. `lineStart` are the cells from the start of the line. -/
def scanSpam : (lineStart : List Char) → (blank : Bool) → List Char → Except Ended (Bool × Bool)
  | _, _, [] => .error .fault
  | lineStart, blank, char :: rest =>
      if char = nul then .ok (false, true)
      else if char = '\n' ∨ char = '\r' then
        if blank then .ok (false, false)
        else if spamFlag.isPrefixOf lineStart then .ok (true, true)
        else if rest.head? = some nul then scanSpam lineStart false rest
        else scanSpam rest true rest
      else scanSpam lineStart (blank && (char = ' ' || char = '\t')) rest

def isSpam (cells : List Char) : Except Ended (Bool × Bool) := scanSpam cells true cells

/-- The test in front of `is_spam`, which reads the record behind `vpw`. -/
def checksSpam (mailer : Mailer) (limits : Limits) (process : Process) : Except Ended Bool :=
  if !(mailer.switches.spamassassin && process.isLocal && process.inHeaders) then .ok false
  else if limits.deleteSpam = 1 then .ok true
  else if !process.vpw then .error .fault
  else .ok (decide (Has process.pwGid deleteSpam))

/-- What the copying loop has written, what it has not read, and the variables. -/
def copyLoop (mailer : Mailer) (limits : Limits) (process : Process) :
    List (List Char) → (cells : List Char) → Except Ended (List Char × List Char × Process)
  | [], _ => .ok ([], [], process)
  | chunk :: chunks, cells =>
      let cells := chunk ++ cells.drop chunk.length
      let goOn := fun process =>
        (copyLoop mailer limits process chunks cells).map fun (body, unread, process) =>
          (chunk ++ body, unread, process)
      (checksSpam mailer limits process).bind fun checks =>
        if !checks then goOn process
        else
          (isSpam cells).bind fun (spam, headers) =>
            let process := { process with inHeaders := headers }
            if spam then .ok ([], chunks.flatten, { process with deleteMail := true })
            else goOn process

/-- `vpw` is looked up once. -/
def findAccount (mailer : Mailer) (email : List Char) (process : Process) : Process :=
  if process.vpw then process
  else
    let (user, domain) := mailer.parseEmail email
    let found := mailer.getpw user domain
    { process with
      theUser := found.user
      theDomain := found.domain
      vpw := found.pwGid.isSome
      pwGid := found.pwGid.getD process.pwGid }

def runsSpamc (mailer : Mailer) (answers : Answers) (limits : Limits) (process : Process) :
    Bool :=
  mailer.switches.spamassassin && limits.disableSpamassassin = 0 && process.vpw &&
    !decide (Has process.pwGid noSpamassassin) && answers.forks

def runsMaildrop (mailer : Mailer) (limits : Limits) (process : Process) : Bool :=
  mailer.switches.maildrop && limits.disableMaildrop = 0 && process.vpw &&
    !decide (Has process.pwGid noMaildrop)

/-- `run_command`, by the exit status of the child. -/
def runCommand (code : Nat) : Except Ended Unit :=
  if code ∈ [64, 65, 70, 76, 77, 78, 100, 112] then .error (.exit exitBounce)
  else if code = 99 then .error (.exit 99)
  else if code = 0 then .ok ()
  else .error (.exit exitDefer)

/-- The descriptor that is copied. -/
inductive Source
  | stdin
  | other (text : List Char)

def copySource (mailer : Mailer) (answers : Answers) (limits : Limits) (stale : List Char)
    (source : Source) (process : Process) : Except Ended (List Char × Process) :=
  match source with
  | .stdin =>
      (copyLoop mailer limits process (answers.reads process.input.unread) stale).map
        fun (body, unread, process) =>
          (body, { process with input := process.input.leave unread })
  | .other text =>
      (copyLoop mailer limits process (answers.reads text) stale).map
        fun (body, _, process) => (body, process)

/-- `fdcopy` behind the headers: what it writes. The client of SpamAssassin reads
descriptor 0 and becomes descriptor 0, whatever is copied. -/
def fdcopy (mailer : Mailer) (answers : Answers) (stale : List Char) (source : Source)
    (email : List Char) (process : Process) : Except Ended (List Char × Process) :=
  let limits := mailer.limits process.theDomain
  if !process.isLocal then copySource mailer answers limits stale source process
  else
    let process := findAccount mailer email process
    let process :=
      if runsSpamc mailer answers limits process then
        { process with input := .pipe (mailer.spamc email process.input.unread) }
      else process
    if runsMaildrop mailer limits process then
      (runCommand answers.maildropCode).map fun _ =>
        ([], { process with
          deleteMail := true
          input := process.input.leave (answers.taken process.input.unread) })
    else copySource mailer answers limits stale source process

/-! ## Maildirs -/

def deliverToMaildir (mailer : Mailer) (answers : Answers) (store : Maildir) (kind : Kind)
    (maildir headers : List Char) (source : Source) (process : Process) :
    Except Ended (Int × Process) :=
  -- over the quota of the file system it is -1, for which the program ends as well
  if !store.opens then .ok (-2, process)
  else
    let process := { process with isLocal := true }
    (fdcopy mailer answers store.stale source (mailer.maildirToEmail maildir) process).bind
      fun (body, process) =>
        if process.deleteMail then .ok (0, process)
        else if store.links || store.renames then
          .ok (0, { process with
            deliveries := process.deliveries ++ [⟨kind, maildir, headers, body⟩] })
        else .ok (-2, process)

/-- `snprintf` into a buffer of `AUTH_SIZE` cells. -/
def headerLine (text : List Char) : List Char := text.take 299

def deliveredTo : List Char := "Delivered-To: ".toList

def deliverQuotaWarning (mailer : Mailer) (answers : Answers) (dir : List Char)
    (process : Process) : Except Ended Process :=
  match answers.warning with
  | none => .ok process
  | some text =>
      let headers :=
        if dir = mailer.bounce then mailer.dtline.getD "(null)".toList ++ answers.date
        else deliveredTo ++ mailer.maildirToEmail dir ++ '\n' :: answers.date
      (deliverToMaildir mailer answers answers.warned .warning dir (headerLine headers)
        (.other text) process).map Prod.snd

/-- The lookups in front of the quota check, and whether it takes place. -/
def quotaLookups (mailer : Mailer) (answers : Answers) (address : List Char)
    (process : Process) : Process × Bool :=
  let email := mailer.maildirToEmail address
  let limits := mailer.limits process.theDomain
  let process := if mailer.switches.maildrop then findAccount mailer email process else process
  let checked := answers.quotaApplies && (!mailer.switches.maildrop || (process.vpw &&
    (limits.disableSpamassassin = 1 || decide (Has process.pwGid noMaildrop))))
  if checked then
    ({ process with pwGid := (mailer.getpwLong email).getD process.pwGid }, true)
  else (process, false)

def maildirHeaders (mailer : Mailer) (address user domain : List Char) : List Char :=
  let email := mailer.maildirToEmail address
  headerLine <|
    if address = mailer.bounce ∨ email = [] then
      mailer.rpline ++ deliveredTo ++ user ++ '@' :: domain ++ ['\n']
    else mailer.rpline ++ deliveredTo ++ email ++ ['\n']

/-- `deliver_mail` on the line of a Maildir. -/
def deliverMaildir (mailer : Mailer) (answers : Answers) (address : List Char)
    (process : Process) : Except Ended Process :=
  if address.getLast? ≠ some '/' then .error (.exit exitDefer)
  else
    let (process, checked) := quotaLookups mailer answers address process
    let overQuota :=
      if checked then answers.overQuota else mailer.switches.domainQuotas && answers.overDomain
    if overQuota then
      (deliverQuotaWarning mailer answers address process).bind fun _ => .error (.exit exitBounce)
    else
      (if checked && answers.nearQuota then deliverQuotaWarning mailer answers address process
        else .ok process).bind fun process =>
          (deliverToMaildir mailer answers answers.mailed .maildir address
            (maildirHeaders mailer address process.theUser process.theDomain) .stdin
            process).bind fun (code, process) =>
              if code = -2 then .error (.exit exitDefer) else .ok process

/-! ## Forwards -/

def forwardHeaders (mailer : Mailer) (address : List Char) : List Char :=
  headerLine <|
    match mailer.dtline with
    | none => mailer.rpline ++ deliveredTo ++ address ++ ['\n']
    | some dtline =>
        if dtline.length < 15 then mailer.rpline ++ deliveredTo ++ address ++ ['\n']
        else
          -- the text behind the dash is as long as the domain and its newline behind the at sign
          let line := dtline.drop 14
          let user := if '@' ∈ line then line.drop (line.length - line.idxOf '@' - 1) else line
          mailer.rpline ++ deliveredTo ++ user

/-- `deliver_mail` on an address. -/
def deliverForward (mailer : Mailer) (answers : Answers) (address : List Char)
    (process : Process) : Except Ended Process :=
  let address := if address.head? = some '&' then address.tail else address
  if !answers.forks then .error (.exit exitDefer)
  else
    let process := { process with isLocal := false }
    (fdcopy mailer answers answers.mailed.stale .stdin address process).bind
      fun (body, process) =>
        if answers.exitCode = 0 then
          .ok { process with
            deliveries := process.deliveries ++
              [⟨.forward, address, forwardHeaders mailer address, body⟩] }
        else .error (.exit answers.exitCode)

/-! ## Lines -/

/-- What `is_looping` does to the size and to descriptor 0 besides looking at the headers. -/
def scanHeaders (mailer : Mailer) (answers : Answers) (process : Process) : Process :=
  let input :=
    if mailer.switches.makeSeekable then process.input.makeSeekable else process.input
  { process with
    messageSize := if process.messageSize = 0 then input.size else process.messageSize
    input := input.leave (answers.scanned input.unread) }

inductive Line
  | comment
  | command
  | maildir
  | forward
  deriving DecidableEq

def lineOf (address : List Char) : Line :=
  match address with
  | '#' :: _ => .comment
  | '|' :: _ => .command
  | '.' :: _ => .maildir
  | '/' :: _ => .maildir
  | _ => .forward

def deliverMail (mailer : Mailer) (answers : Answers) (address : List Char)
    (process : Process) : Except Ended Process :=
  if lineOf address = .comment then .ok process
  else if answers.looping then .error (.exit exitBounce)
  else
    let process := scanHeaders mailer answers process
    if mailer.switches.makeSeekable && process.messageSize = 0 then .ok process
    else
      let process := { process with input := process.input.rewind }
      match lineOf address with
      | .command =>
          (runCommand answers.exitCode).map fun _ =>
            { process with input := process.input.leave (answers.taken process.input.unread) }
      | .maildir => deliverMaildir mailer answers address process
      | _ => deliverForward mailer answers address process

end Vpopmail.Vdelivermail

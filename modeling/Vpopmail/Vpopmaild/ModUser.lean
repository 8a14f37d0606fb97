import Vpopmail.Quota
import Vpopmail.Vcdb.Lookup
import Vpopmail.Vcdb.Rewriting
import Vpopmail.Vpopmaild.Session

/-! # `mod_user`

The command reads the record of an account, lets the parameter lines behind it
change the record one after the other, and sets it.
-/

namespace Vpopmail.Vpopmaild

open Vpopmail Text Vpopmail.Stream Buffer Vcdb

/-! ## Who may change what -/

/-- The refusal of a caller who may not change the account. -/
def refuses (session : Session) (user domain : List Char) : Option Refusal :=
  let gid := session.authVpw.pwGid
  if ¬Has gid saAdmin ∧ Has gid qaAdmin then
    if session.theDomain ≠ domain then some ⟨-1, .notAuthDomain, 503⟩ else none
  else if ¬Has gid saAdmin then
    if session.theDomain ≠ domain ∨ session.theUser ≠ user then
      some ⟨-1, .notAuthDomain, 504⟩
    else none
  else none

/-- `can_override`. -/
def canOverride (session : Session) : Bool :=
  let gid := session.authVpw.pwGid
  decide (Has gid saAdmin) || (decide (Has gid qaAdmin) && decide (Has gid vOverride))

/-- The privilege tests in front of the flag parameters. -/
inductive Guard
  | anyone
  | override
  | systemAdmin
  | domainAdmin
  deriving DecidableEq

def Guard.allows (session : Session) : Guard → Bool
  | anyone => true
  | override => canOverride session
  | systemAdmin => decide (Has session.authVpw.pwGid saAdmin)
  | domainAdmin =>
      decide (Has session.authVpw.pwGid saAdmin) || decide (Has session.authVpw.pwGid qaAdmin)

/-- A parameter that sets or clears one bit of `pw_gid`. -/
structure FlagParameter where
  name : String
  guard : Guard
  flag : BitVec 32

/-- The flag parameters in the order of their branches. -/
def flagParameters : List FlagParameter :=
  [⟨"no_password_change", .override, noPasswdChng⟩,
    ⟨"no_pop", .override, noPop⟩,
    ⟨"no_webmail", .override, noWebmail⟩,
    ⟨"no_imap", .override, noImap⟩,
    ⟨"bounce_mail", .override, bounceMail⟩,
    ⟨"no_relay", .override, noRelay⟩,
    ⟨"no_dialup", .override, noDialup⟩,
    ⟨"user_flag_0", .override, vUser0⟩,
    ⟨"user_flag_1", .override, vUser1⟩,
    ⟨"user_flag_2", .anyone, vUser2⟩,
    ⟨"user_flag_3", .anyone, vUser3⟩,
    ⟨"no_smtp", .override, noSmtp⟩,
    ⟨"system_admin_privileges", .systemAdmin, saAdmin⟩,
    ⟨"system_expert_privileges", .systemAdmin, saExpert⟩,
    ⟨"domain_admin_privileges", .domainAdmin, qaAdmin⟩,
    ⟨"override_domain_limits", .systemAdmin, vOverride⟩,
    ⟨"no_spamassassin", .anyone, noSpamassassin⟩,
    ⟨"delete_spam", .anyone, deleteSpam⟩,
    ⟨"no_maildrop", .anyone, noMaildrop⟩]

/-- `if (atoi(value) == 1) gid |= flag; else if (atoi(value) == 0) gid &= ~flag`. -/
def setFlag (flag : BitVec 32) (value : List Char) (gid : BitVec 32) : BitVec 32 :=
  if Decimal.atoi value = 1 then gid ||| flag
  else if Decimal.atoi value = 0 then gid &&& ~~~flag
  else gid

/-! ## Parameter lines -/

/-- `TOKENS`. -/
def tokensDelimit (char : Char) : Bool :=
  char = ' ' || char = '\n' || char = '\t' || char = '\r'

/-- `PASS_TOKENS`. -/
def passTokensDelimit (char : Char) : Bool := char = '\n' || char = '\r'

/-- `PARAM_TOKENS`. -/
def paramTokensDelimit (char : Char) : Bool :=
  char = ' ' || char = '=' || char = ':' || char = '\n' || char = '\r'

/-- Name and value of a parameter line, unless one is missing. -/
def parameterOf (chunk : List Char) : Option (List Char × List Char) :=
  match strtok paramTokensDelimit (cstring chunk) with
  | none => none
  | some (param, rest) =>
      match strtok passTokensDelimit rest with
      | none => none
      | some (value, _) => some (param, value)

/-- The parameters up to the first line that starts with a dot. -/
def parametersOf (stdin : List Char) : List (List Char × List Char) :=
  ((fgetsLoop maxTmpBuff stdin).takeWhile fun chunk => chunk.head? != some '.').filterMap
    parameterOf

/-! ## The loop -/

/-- `sizeof(Crypted)`. -/
def cryptedSize : Nat := 64

/-- What the command finds around it. `crypt` is the library function under the
salts of `mkpasswd3` and fails with a null pointer, and `crypted` are the cells of
`Crypted` as the stack happens to hold them. -/
structure Daemon where
  crypt : List Char → Option (List Char)
  doubles : Doubles
  crypted : { cells : List Char // cells.length = cryptedSize }
  defaultDomain : List Char
  /-- The domain that a name in an address stands for. -/
  site : List Char → Site

/-- `mkpasswd3` into the cells of its argument. -/
def mkpasswd3 (crypt : List Char → Option (List Char)) (clearpass crypted : List Char) :
    List Char :=
  match crypt clearpass with
  | none => crypted
  | some text => strncpyCells crypted.length text

/-- The record and the cells of `Crypted` between two lines. -/
structure Modification where
  tmpvpw : Vqpasswd
  crypted : List Char

/-- The branches of the loop. The quota also goes into the `maildirsize` file of
the account, which the password store does not read. -/
def applyParameter (daemon : Daemon) (session : Session) (state : Modification)
    (param value : List Char) : Checked Modification :=
  let pw := state.tmpvpw
  if param = "comment".toList then .ok { state with tmpvpw := { pw with pwGecos := value } }
  else if canOverride session ∧ param = "quota".toList then
    (formatMaildirquota daemon.doubles value).bind fun quota =>
      .ok { state with tmpvpw := { pw with pwShell := quota } }
  else if param = "encrypted_password".toList then
    .ok { state with tmpvpw := { pw with pwPasswd := value } }
  else if param = "clear_text_password".toList ∧ ¬Has pw.pwFlags noPasswdChng then
    let crypted := mkpasswd3 daemon.crypt value state.crypted
    (stringAt crypted 0).bind fun passwd =>
      .ok { tmpvpw := { pw with pwClearPasswd := some value, pwPasswd := passwd }
            crypted := crypted }
  else if canOverride session ∧ param = "clear_all_flags".toList then
    .ok { state with tmpvpw := { pw with pwGid := 0 } }
  else
    match flagParameters.find? fun parameter =>
        parameter.guard.allows session && param == parameter.name.toList with
    | none => .ok state
    | some parameter =>
        .ok { state with tmpvpw := { pw with pwGid := setFlag parameter.flag value pw.pwGid } }

def applyParameters (daemon : Daemon) (session : Session) :
    List (List Char × List Char) → Modification → Checked Modification
  | [], state => .ok state
  | (param, value) :: parameters, state =>
      (applyParameter daemon session state param value).bind
        (applyParameters daemon session parameters)

/-! ## The command -/

/-- The account that the first token of the arguments names. -/
def addressOf (daemon : Daemon) (arguments : List Char) :
    Except Refusal (List Char × List Char) :=
  match strtok tokensDelimit arguments with
  | none => .error ⟨-1, .emailReqd, 501⟩
  | some (email, _) =>
      match parseEmail daemon.defaultDomain authSize email with
      | none => .error ⟨-1, .invalidEmail, 502⟩
      | some address => .ok address

theorem lowerit_addressOf {daemon : Daemon} {arguments user domain : List Char}
    (addressed : addressOf daemon arguments = .ok (user, domain)) : lowerit user = user := by
  rw [addressOf] at addressed
  split at addressed
  · cases addressed
  · split at addressed
    · cases addressed
    · rename_i parsed
      cases addressed
      exact lowerit_parseEmail (by decide) parsed

/-- `mod_user` on the files of the domain in the address. A caller who is not
refused gets the return value of `vauth_setpw`. -/
def modUser (daemon : Daemon) (session : Session) (files : Vcdb.Files)
    (arguments stdin : List Char) : Checked (Except Refusal (Int × Vcdb.Files)) :=
  match addressOf daemon arguments with
  | .error refusal => .ok (.error refusal)
  | .ok (user, domain) =>
      match refuses session user domain with
      | some refusal => .ok (.error refusal)
      | none =>
          (authGetpw (daemon.site domain) files user).bind fun
            | none => .ok (.error ⟨-1, .noUser, 505⟩)
            | some pw =>
                (applyParameters daemon session (parametersOf stdin)
                    ⟨pw, daemon.crypted.val⟩).bind fun state =>
                  (authSetpw (daemon.site domain) files state.tmpvpw).bind
                    fun answer => .ok (.ok answer)

/-- A `mod_user` that came to set a record: the account, its record before, and
the record that is set. -/
structure Served (daemon : Daemon) (session : Session) (files : Vcdb.Files)
    (arguments stdin user domain : List Char) (before : Vqpasswd) (state : Modification)
    (answer : Int × Vcdb.Files) : Prop where
  addressed : addressOf daemon arguments = .ok (user, domain)
  allowed : refuses session user domain = none
  found : authGetpw (daemon.site domain) files user = .ok (some before)
  applied : applyParameters daemon session (parametersOf stdin) ⟨before, daemon.crypted.val⟩ =
    .ok state
  set : authSetpw (daemon.site domain) files state.tmpvpw = .ok answer

/-- Every caller who is not refused is served. -/
theorem modUser_eq_ok_iff (daemon : Daemon) (session : Session) (files : Vcdb.Files)
    (arguments stdin : List Char) (answer : Int × Vcdb.Files) :
    modUser daemon session files arguments stdin = .ok (.ok answer) ↔
      ∃ user domain before state,
        Served daemon session files arguments stdin user domain before state answer := by
  constructor
  · intro served
    rw [modUser] at served
    split at served
    · cases served
    · rename_i user domain addressed
      split at served
      · cases served
      · rename_i allowed
        cases found : authGetpw (daemon.site domain) files user with
        | error fault =>
            rw [found] at served
            cases served
        | ok looked =>
            rw [found] at served
            cases looked with
            | none => cases served
            | some before =>
                cases applied : applyParameters daemon session (parametersOf stdin)
                    ⟨before, daemon.crypted.val⟩ with
                | error fault => simp [Except.bind, applied] at served
                | ok state =>
                    cases set : authSetpw (daemon.site domain) files state.tmpvpw with
                    | error fault => simp [Except.bind, applied, set] at served
                    | ok given =>
                        simp only [Except.bind, applied, set, Except.ok.injEq] at served
                        subst served
                        exact ⟨user, domain, before, state, addressed, allowed, found, applied,
                          set⟩
  · intro holds
    rcases holds with ⟨user, domain, before, state, addressed, allowed, found, applied, set⟩
    simp only [modUser, addressed, allowed, found, applied, set, Except.bind]

end Vpopmail.Vpopmaild

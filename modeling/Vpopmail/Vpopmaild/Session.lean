import Vpopmail.Names
import Vpopmail.Foundation.Decimal

/-! # A vpopmaild session

The replies, the backend that the daemon is linked with, and the state that
`login` leaves behind for the commands.
-/

namespace Vpopmail.Vpopmaild

open Vpopmail

/-- The size of the buffers that commands are read into. -/
def maxTmpBuff : Nat := 1024

/-- The entries of `ErrorMessages` that the modelled commands use. -/
inductive ErrorMessage
  | emailReqd
  | invalidLogin
  | invalidEmail
  | notAuthDomain
  | noUser
  | invalidDirDotdot
  | invalidDirPct
  | invalidDirSlash
  | invalidDirAt
  | invalidDirParse
  | invalidDirUnk
  | unauthDir
  | dirReqd
  | sourceReqd
  | destReqd
  | fnameReqd
  deriving DecidableEq

def ErrorMessage.number : ErrorMessage → Nat
  | emailReqd => 6
  | invalidLogin => 8
  | invalidEmail => 10
  | notAuthDomain => 11
  | noUser => 12
  | invalidDirDotdot => 20
  | invalidDirPct => 21
  | invalidDirSlash => 22
  | invalidDirAt => 23
  | invalidDirParse => 24
  | invalidDirUnk => 25
  | unauthDir => 26
  | dirReqd => 27
  | sourceReqd => 28
  | destReqd => 29
  | fnameReqd => 30

def ErrorMessage.text : ErrorMessage → String
  | emailReqd => "Email Address Required"
  | invalidLogin => "Invalid Login"
  | invalidEmail => "Invalid Email Address"
  | notAuthDomain => "Not Authorized for domain"
  | noUser => "User does not exist"
  | invalidDirDotdot => "Invalid Directory.  .. not allowed in path"
  | invalidDirPct => "Invalid Directory.  % not allowed in path"
  | invalidDirSlash => "Invalid Directory.  Do you need a trailing '/'?"
  | invalidDirAt => "Invalid Directory. Found / before @"
  | invalidDirParse => "Invalid Directory. Can't parse email address"
  | invalidDirUnk => "Invalid Directory. Unknown email address"
  | unauthDir => "Unauthorized Directory."
  | dirReqd => "Directory Required."
  | sourceReqd => "Source File Name Required"
  | destReqd => "Destination File Name Required"
  | fnameReqd => "Filename Required"

/-- A failed command: its return value and the arguments of `show_error`. -/
structure Refusal where
  ret : Int
  major : ErrorMessage
  minor : Nat
  deriving DecidableEq

/-- `show_error`: the reply line for a refusal. -/
def showError (refusal : Refusal) : List Char :=
  let minor := Decimal.spellNat refusal.minor
  "-ERR ".toList ++ Decimal.spellNat refusal.major.number ++ ".".toList ++
    List.replicate (3 - minor.length) '0' ++ minor ++ " ".toList ++
    refusal.major.text.toList ++ "\r\n".toList

/-- The functions the daemon calls outside itself: the loaded authentication
module and the lookups of `vpopmail.c`. `vauthGetpw` also reports the domain
name it leaves in its argument, where an alias domain has become the real one. -/
structure Backend where
  vauthGetpw : List Char → List Char → Option (Vqpasswd × List Char)
  vauthCrypt : List Char → List Char → List Char → Vqpasswd → Bool
  vgetAssign : List Char → Option (List Char)
  defaultDomain : List Char

/-- What `login` records about the caller. -/
structure Session where
  authVpw : Vqpasswd
  theUser : List Char
  theDomain : List Char
  theUserDir : List Char
  theDomainDir : List Char
  theVpopmailDomains : List Char

def authSize : Nat := 156

def maxpath : Nat := 256

/-- `snprintf(target, 256, "%s", text)` into one of the directory buffers. -/
def snprintfPath (text : List Char) : List Char := text.take (maxpath - 1)

/-- `login`. The `%s` of a null `vget_assign` result prints `(null)`. -/
def login (backend : Backend) (vpopmailDirDomains email pass : List Char) :
    Except Refusal Session :=
  match parseEmail backend.defaultDomain authSize email with
  | none => .error ⟨-2, .invalidLogin, 205⟩
  | some (user, domain) =>
      match backend.vauthGetpw user domain with
      | none => .error ⟨-2, .invalidLogin, 206⟩
      | some (tmpvpw, domain) =>
          if !backend.vauthCrypt user domain pass tmpvpw then
            .error ⟨-2, .invalidLogin, 207⟩
          else
            let domainDir := (backend.vgetAssign domain).getD "(null)".toList
            let session : Session :=
              { authVpw := tmpvpw
                theUser := user
                theDomain := domain
                theUserDir := snprintfPath tmpvpw.pwDir
                theDomainDir := snprintfPath domainDir
                theVpopmailDomains := snprintfPath vpopmailDirDomains }
            if Has tmpvpw.pwGid saAdmin then .ok session
            else if Has tmpvpw.pwGid qaAdmin ∨ tmpvpw.pwName = "postmaster".toList then
              .ok { session with
                authVpw := { tmpvpw with pwGid := tmpvpw.pwGid ||| qaAdmin }
                theDomainDir := domainDir }
            else .ok session

/-- The directory the caller of a session without `SA_ADMIN` is entitled to. -/
def Session.entitledDir (session : Session) : List Char :=
  if Has session.authVpw.pwGid qaAdmin then session.theDomainDir else session.theUserDir

end Vpopmail.Vpopmaild

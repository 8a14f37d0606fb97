import Vpopmail.Foundation.Copying
import Vpopmail.IpMap
import Vpopmail.OpenRelay

/-! # The default domain

`vset_default_domain` and `vset_default_domain_safe`. Both look at `VPOPMAIL_DOMAIN`, at the
domain of the address in `TCPLOCALIP`, and at the file `defaultdomain`.
-/

namespace Vpopmail

open Text Vpopmail.Stream Buffer

/-! ## What they look at -/

/-- `for (cp = tmpstr; *(cp += strspn(cp, ok_env_chars)); ) *cp = '_'`. -/
def okEnvChars (text : List Char) : List Char :=
  text.map fun char => if Relay.okEnvChar char then char else '_'

/-- `default_domain`, which reads a line of the file into `MAX_PW_DOMAIN + 1` cells. -/
def defaultDomain (file : Option (List Char)) : List Char :=
  match file.bind (fgets (maxPwDomain + 1)) with
  | none => []
  | some (chunk, _) =>
      let d := cstring chunk
      if d.getLast? = some '\n' then d.dropLast else d

/-- A domain that `vget_ip_map` writes to `host`. -/
abbrev Host := { name : List Char // Free nul name ∧ name.length < 256 }

/-- The variables, the files and the backend. A backend without `IP_ALIAS_DOMAINS` has no
map from addresses to domains. -/
structure Environment where
  vpopmailDomain : Option CString
  tcpLocalIp : Option CString
  ipAliasDomains : Bool
  ipMap : List Char → Option Host
  locals : Option (List Char)
  defaultDomainFile : Option (List Char)

def Environment.defaultDomain (environment : Environment) : List Char :=
  Vpopmail.defaultDomain environment.defaultDomainFile

/-- `host_in_locals`, where `localhost` is in every file with a line. -/
def hostInLocals (locals : Option (List Char)) (domain : List Char) : Bool :=
  (readLines locals).any fun line =>
    domain = line || domain = ['l', 'o', 'c', 'a', 'l', 'h', 'o', 's', 't']

/-- The domain of an address, if it is not one of the local ones. -/
def Environment.mappedHost (environment : Environment) (address : Option (List Char)) :
    Option Host :=
  if environment.ipAliasDomains then
    (address.bind environment.ipMap).filter fun host => !hostInLocals environment.locals host.val
  else none

/-! ## The functions -/

/-- What becomes of `TCPLOCALIP`: the loop over its characters comes before the one that
skips what stands between two colons. -/
def localAddress (value : List Char) : Checked (List Char) :=
  let tmpstr := okEnvChars value
  if tmpstr.head? = some ':' then
    let cells := tmpstr ++ [nul]
    (walkTo ':' cells 2).bind fun position => stringAt cells (position + 1)
  else .ok tmpstr

/-- The address that `vset_default_domain` looks up. Without `IP_ALIAS_DOMAINS` it does not
look at the variable. -/
def lookupAddress (environment : Environment) : Checked (Option (List Char)) :=
  match environment.tcpLocalIp with
  | none => .ok none
  | some value =>
      if environment.ipAliasDomains then (localAddress value.val).map some else .ok none

/-- `vset_default_domain`, with the domain as a string. -/
def vsetDefaultDomain (environment : Environment) (domain : List Char) : Checked (List Char) :=
  if domain ≠ [] then .ok domain
  else
    match environment.vpopmailDomain with
    | some value => .ok (snprintf (maxPwDomain + 1) (okEnvChars value.val))
    | none =>
        (lookupAddress environment).map fun address =>
          match environment.mappedHost address with
          | some host =>
              if host.val ≠ [] then snprintf (maxPwDomain + 1) host.val else domain
          | none => snprintf (maxPwDomain + 1) environment.defaultDomain

/-- The last part of `vset_default_domain_safe`. -/
def copyDefaultDomain (environment : Environment) (domain : List Char) : Checked (List Char) :=
  if environment.defaultDomain ≠ [] then copyString environment.defaultDomain domain
  else .ok domain

/-- `memcpy(domain, host, dlen); *(domain + dlen) = '\0'`, from the 256 cells of `host`. -/
def copyHost (host : Host) (domain : List Char) : Checked (List Char) :=
  (memcpy 0 domain.length (strncpyCells 256 host.val) domain).bind (poke domain.length nul)

/-- `vset_default_domain_safe` on the `dlen` cells of `domain`. -/
def vsetDefaultDomainSafe (environment : Environment) (domain : List Char) :
    Checked (List Char) :=
  if domain = [] then .ok domain
  else if domain.head? ≠ some nul then .ok domain
  else
    match environment.vpopmailDomain with
    | some ⟨char :: value, _⟩ => copyString (char :: value) domain
    | _ =>
        match environment.mappedHost (environment.tcpLocalIp.map Subtype.val) with
        | some host => (copyHost host domain).bind (copyDefaultDomain environment)
        | none => copyDefaultDomain environment domain

/-! ## The map of the cdb backend -/

end Vpopmail

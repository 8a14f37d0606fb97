import Vpopmail.Foundation.Copying
import Vpopmail.Foundation.Decimal
import Vpopmail.Foundation.Network

/-! # Addresses with ports

`ippp_parse` copies the text in front of the first colon without a look at the size of
its buffer, and takes from the text behind it what `atoi` can use.
-/

namespace Vpopmail

open Text Buffer Wire

/-- `struct sockaddr_in`, with the port in network byte order. -/
structure SockaddrIn where
  sinFamily : Nat
  sinPort : List UInt8
  sinAddr : BitVec 32
  deriving DecidableEq

def afInet : Nat := 2

/-- The size of `ip`. -/
def ipSize : Nat := 16

/-- `memcpy(ip, pair, p - pair); *(ip + (p - pair)) = 0`. -/
def saveIp (count : Nat) (pair : List Char) : Checked (List Char) :=
  (memcpy 0 count pair (List.replicate ipSize nul)).bind (poke count nul)

/-- `ippp_parse`: the return value, and `addr`. -/
def ipppParse (inetAddr : List Char → BitVec 32) (pair : CString) (addr : SockaddrIn) :
    Checked (Bool × SockaddrIn) :=
  match cut ':' pair.val with
  | (_, none) => .ok (false, addr)
  | (address, some number) =>
      let port := Decimal.atoi number
      if port < 1 then .ok (false, addr)
      else
        (saveIp address.length pair.val).map fun ip =>
          let addr : SockaddrIn :=
            { sinFamily := afInet
              sinPort := toNetwork 2 (port % 65536).toNat
              sinAddr := inetAddr (cstring ip) }
          (decide (addr.sinAddr ≠ -1), addr)

/-! ## Copying the address -/

section Save

variable {address number : List Char}

theorem saveIp_of_fits (fits : address.length < ipSize) :
    saveIp address.length (address ++ ':' :: number) =
      .ok (address ++ nul :: List.replicate (ipSize - (address.length + 1)) nul) := by
  have inside : address.length ≤ (address ++ ':' :: number).length ∧
      0 + address.length ≤ (List.replicate ipSize nul).length := by
    rw [List.length_append, List.length_replicate]
    omega
  have behind : ipSize - address.length = ipSize - (address.length + 1) + 1 := by omega
  rw [saveIp, memcpy, if_pos inside, List.take_zero, List.nil_append, List.take_left,
    Nat.zero_add, List.drop_replicate, behind, List.replicate_succ]
  exact poke_append nul nul _

theorem saveIp_of_long (long : ipSize ≤ address.length) (pair : List Char) :
    saveIp address.length pair = .error .outOfBounds := by
  rw [saveIp]
  cases copied : memcpy 0 address.length pair (List.replicate ipSize nul) with
  | error fault => rfl
  | ok ip =>
      have size := length_memcpy copied
      rw [List.length_replicate] at size
      have outside : ¬address.length < ip.length := by omega
      exact if_neg outside

end Save

/-! ## Exactness -/

/-- The text is a decimal number of a port. -/
structure PortNumber (text : List Char) (port : Nat) : Prop where
  nonempty : text ≠ []
  digits : ∀ char ∈ text, char.isDigit = true
  value : Nat.ofDigitChars 10 text 0 = port
  positive : 1 ≤ port
  bounded : port ≤ 65535

/-- Nothing is written outside the buffer, and what is accepted is an address that fits the
buffer and the decimal number of a port, which are stored. -/
def ParsesExactly (inetAddr : List Char → BitVec 32) (pair : CString) (addr : SockaddrIn) :
    Prop :=
  ∃ accepted stored, ipppParse inetAddr pair addr = .ok (accepted, stored) ∧
    (accepted = true → ∃ address number port,
      pair.val = address ++ ':' :: number ∧ Free ':' address ∧ address.length < ipSize ∧
      PortNumber number port ∧ stored = ⟨afInet, toNetwork 2 port, inetAddr address⟩)

/-- The text behind the colon is refused; or the address fits, and it is refused or the text
has digits only, of a number that two bytes can hold. -/
def ExactPair (inetAddr : List Char → BitVec 32) (pair : CString) : Prop :=
  ∀ number, (cut ':' pair.val).2 = some number →
    Decimal.atoi number < 1 ∨
    (cut ':' pair.val).1.length < ipSize ∧
      (inetAddr (cut ':' pair.val).1 = -1 ∨
        (number ≠ [] ∧ (∀ char ∈ number, char.isDigit = true) ∧
          Nat.ofDigitChars 10 number 0 ≤ 65535))

section Exact

variable {inetAddr : List Char → BitVec 32} {pair : CString} {address number : List Char}

theorem ipppParse_of_fits (spelled : pair.val = address ++ ':' :: number)
    (free : Free ':' address) (fits : address.length < ipSize)
    (positive : ¬Decimal.atoi number < 1) (addr : SockaddrIn) :
    ipppParse inetAddr pair addr = .ok (decide (inetAddr address ≠ -1),
      ⟨afInet, toNetwork 2 (Decimal.atoi number % 65536).toNat, inetAddr address⟩) := by
  have plain : Free nul address := by
    intro member
    apply pair.property
    rw [spelled]
    exact List.mem_append_left _ member
  rw [ipppParse, spelled, cut_append_cons free]
  simp only [if_neg positive, saveIp_of_fits fits]
  rw [Except.map, cstring_append_nul plain]

theorem ipppParse_of_long (spelled : pair.val = address ++ ':' :: number)
    (free : Free ':' address) (long : ipSize ≤ address.length)
    (positive : ¬Decimal.atoi number < 1) (addr : SockaddrIn) :
    ipppParse inetAddr pair addr = .error .outOfBounds := by
  rw [ipppParse, spelled, cut_append_cons free]
  simp only [if_neg positive, saveIp_of_long long]
  rfl

end Exact

/-- `ippp_parse` is exact for precisely these strings. -/
theorem parsesExactly_iff (inetAddr : List Char → BitVec 32) (pair : CString)
    (addr : SockaddrIn) : ParsesExactly inetAddr pair addr ↔ ExactPair inetAddr pair := by
  rcases free_or_eq_append_cons ':' pair.val with missing | ⟨address, number, free, spelled⟩
  · have parts := cut_of_free missing
    constructor
    · intro _ number found
      rw [parts] at found
      cases found
    · intro _
      refine ⟨false, addr, ?_, fun accepted => by cases accepted⟩
      rw [ipppParse, parts]
  · have parts : cut ':' pair.val = (address, some number) := by
      rw [spelled, cut_append_cons free]
    constructor
    · intro exact other found
      rw [parts] at found ⊢
      cases found
      by_cases refused : Decimal.atoi number < 1
      · exact .inl refused
      · right
        rcases exact with ⟨accepted, stored, parsed, holds⟩
        by_cases fits : address.length < ipSize
        · refine ⟨fits, ?_⟩
          rw [ipppParse_of_fits spelled free fits refused] at parsed
          by_cases invalid : inetAddr address = -1
          · exact .inl invalid
          · right
            cases parsed
            rcases holds (decide_eq_true invalid) with
              ⟨other, digits, port, same, otherFree, _, portNumber, _⟩
            rw [spelled] at same
            rw [(append_cons_inj free otherFree same).2]
            exact ⟨portNumber.nonempty, portNumber.digits,
              portNumber.value.trans_le portNumber.bounded⟩
        · rw [ipppParse_of_long spelled free (Nat.le_of_not_lt fits) refused] at parsed
          cases parsed
    · intro exact
      have condition := exact number (by rw [parts])
      rw [parts] at condition
      by_cases refused : Decimal.atoi number < 1
      · refine ⟨false, addr, ?_, fun accepted => by cases accepted⟩
        rw [ipppParse, parts]
        exact if_pos refused
      · rcases condition with impossible | ⟨fits, invalid | ⟨nonempty, digits, bounded⟩⟩
        · exact absurd impossible refused
        · refine ⟨_, _, ipppParse_of_fits spelled free fits refused addr, ?_⟩
          intro accepted
          exact absurd invalid (of_decide_eq_true accepted)
        · refine ⟨_, _, ipppParse_of_fits spelled free fits refused addr, ?_⟩
          intro _
          have read := Decimal.strtol_of_digits nonempty digits (by omega)
          have value : Decimal.atoi number = Nat.ofDigitChars 10 number 0 := by
            rw [Decimal.atoi, read]
            exact Int.bmod_eq_of_le (by omega) (by omega)
          have same : (Decimal.atoi number % 65536).toNat = Nat.ofDigitChars 10 number 0 := by
            rw [value]
            omega
          refine ⟨address, number, _, spelled, free, fits,
            ⟨nonempty, digits, rfl, ?_, bounded⟩, ?_⟩
          · rw [value] at refused
            omega
          · rw [same]

/-! ## Sample strings -/

def sampleAddr : SockaddrIn := ⟨0, [0, 0], 0⟩

/-- Signs and trailing characters are accepted. -/
example : ipppParse (fun _ => 0x0100007f) ⟨"127.0.0.1:+389x".toList, by decide⟩ sampleAddr =
    .ok (true, ⟨afInet, [1, 133], 0x0100007f⟩) := by decide +kernel

/-- An address part of 16 characters, whose terminator is written behind the buffer. -/
def longPair : CString := ⟨"1234567890123456:1".toList, by decide⟩

theorem ipppParse_not_exact : ¬∀ (inetAddr : List Char → BitVec 32) (pair : CString)
    (addr : SockaddrIn), ParsesExactly inetAddr pair addr := by
  intro exact
  rcases exact (fun _ => 0x0100007f) longPair sampleAddr with ⟨accepted, stored, parsed, _⟩
  have fault : ipppParse (fun _ => 0x0100007f) longPair sampleAddr = .error .outOfBounds := by
    decide +kernel
  rw [fault] at parsed
  cases parsed

end Vpopmail

import Vpopmail.DefaultDomainAgreement

/-! # Addresses in their IPv6 form

What `get_remote_ip` and `vset_default_domain` make of an address, and of `::ffff:` in front
of it.
-/

namespace Vpopmail

open Text Vpopmail.Stream Buffer

/-! ## Addresses -/

def Octet (text : List Char) : Prop :=
  text ≠ [] ∧ text.length ≤ 3 ∧ ∀ char ∈ text, char.isDigit = true

/-- `a.b.c.d` -/
def DottedQuad (text : List Char) : Prop :=
  ∃ a b c d, Octet a ∧ Octet b ∧ Octet c ∧ Octet d ∧
    text = a ++ '.' :: (b ++ '.' :: (c ++ '.' :: d))

theorem DottedQuad.length {text : List Char} (quad : DottedQuad text) : text.length ≤ 15 := by
  rcases quad with ⟨a, b, c, d, first, second, third, fourth, rfl⟩
  have longest := And.intro first.2.1 (And.intro second.2.1 (And.intro third.2.1 fourth.2.1))
  simp only [List.length_append, List.length_cons]
  omega

theorem okEnvChar_of_isDigit {char : Char} (digit : char.isDigit = true) :
    Relay.okEnvChar char = true := by
  simp only [Char.isDigit, Bool.and_eq_true, decide_eq_true_eq, ge_iff_le,
    UInt32.le_iff_toNat_le] at digit
  change 48 ≤ char.toNat ∧ char.toNat ≤ 57 at digit
  have codes : ∀ code ∈ List.range 10, Relay.okEnvChar (Char.ofNat (48 + code)) = true :=
    List.all_eq_true.mp (show (List.range 10).all
      (fun code => Relay.okEnvChar (Char.ofNat (48 + code))) = true by decide +kernel)
  have own := codes (char.toNat - 48) (List.mem_range.mpr (by omega))
  rwa [show 48 + (char.toNat - 48) = char.toNat by omega, Char.ofNat_toNat] at own

theorem DottedQuad.okEnvChar {text : List Char} (quad : DottedQuad text) :
    ∀ char ∈ text, Relay.okEnvChar char = true := by
  rcases quad with ⟨a, b, c, d, first, second, third, fourth, rfl⟩
  have dot : Relay.okEnvChar '.' = true := by decide +kernel
  have octet {part : List Char} (own : Octet part) : ∀ char ∈ part,
      Relay.okEnvChar char = true := fun char member => okEnvChar_of_isDigit (own.2.2 char member)
  simp only [List.forall_mem_append, List.forall_mem_cons]
  exact ⟨octet first, dot, octet second, dot, octet third, dot, octet fourth⟩

end Vpopmail

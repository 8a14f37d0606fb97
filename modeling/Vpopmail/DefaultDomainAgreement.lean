import Vpopmail.DefaultDomain

/-! # The safe default domain

When `vset_default_domain_safe` stays inside its buffer and leaves the domain that
`vset_default_domain` would.
-/

namespace Vpopmail

open Text Vpopmail.Stream Buffer

/-! ## Good characters -/

section Setting

variable {environment : Environment}

end Setting

end Vpopmail

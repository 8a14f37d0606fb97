import Vpopmail.Client
import Vpopmail.MaildirEmail
import Vpopmail.Foundation.Signed

/-! # Quotas of domains

`domain_over_maildirquota` judges a message that is about to be delivered, by what the usage
daemon says or by the files. `quota_check_domain` asks the daemon only.
-/

namespace Vpopmail.DomainQuota

open Text Signed Client Vusaged

/-- What the functions are told: the mode and size of standard input, the limits and the
directory of a domain, the reply of the daemon and the sum of `readdomainquota`. -/
structure Calls where
  fstat : Option (Bool × BitVec 64)
  vgetLimits : List Char → Option Vlimits
  vgetAssign : List Char → Option (List Char)
  clientQueryQuick : List Char → Option Usage
  readdomainquota : List Char → Option (BitVec 64 × BitVec 32)

/-! ## `domain_over_maildirquota` -/

/-- The limit in bytes, which is computed as an `int`. -/
def maxsize (limits : Vlimits) : Option UInt64 :=
  (signed 32 (limits.diskquota.toInt * 1024)).bind fun kilobytes =>
    (signed 32 (kilobytes * 1024)).map fun bytes => .ofBitVec (BitVec.ofInt 64 bytes)

/-- The comparison with the usage that the daemon knows. -/
def overDaemon (maxsize : UInt64) (maxcnt : BitVec 32) (stSize : BitVec 64) (usage : Usage) :
    Bool :=
  maxsize < usage.susage + .ofBitVec stSize ||
    maxcnt ≠ 0 && UInt64.ofBitVec (maxcnt.signExtend 64) ≤ usage.cusage

/-- The comparison with the sum over the files, where the sizes are added as `long`s. -/
def overFiles (maxsize : UInt64) (maxcnt : BitVec 32) (stSize : BitVec 64)
    (used : BitVec 64 × BitVec 32) : Option Bool :=
  let overCount : Bool := 0 < maxcnt.toInt && maxcnt.toInt ≤ used.2.toInt
  if 0 < maxsize then
    (signed 64 (used.1.toInt + stSize.toInt)).map fun total =>
      maxsize < .ofBitVec (BitVec.ofInt 64 total) || overCount
  else some overCount

/-- The size of the buffers for the domain and for the question. -/
def domainSize : Nat := 256

/-- From where the limits are known. -/
def overLimits (calls : Calls) (stSize : BitVec 64) (domain : List Char) (limits : Vlimits) :
    Option Int :=
  (maxsize limits).bind fun maxsize =>
    if maxsize = 0 ∧ limits.maxmsgcount = 0 then some 0
    else
      match calls.vgetAssign domain with
      | none => some (-1)
      | some domdir =>
          let reply :=
            if domain.length + 2 < domainSize then calls.clientQueryQuick ('@' :: domain) else none
          match reply with
          | some usage =>
              some (if overDaemon maxsize limits.maxmsgcount stSize usage then 1 else 0)
          | none =>
              match calls.readdomainquota domdir with
              | none => some (-1)
              | some used =>
                  (overFiles maxsize limits.maxmsgcount stSize used).map fun exceeded =>
                    if exceeded then 1 else 0

/-- `domain_over_maildirquota`. There is no result where a sum or a buffer overflows. -/
def domainOverMaildirquota (calls : Calls) (cwd userdir : List Char) : Option Int :=
  match calls.fstat with
  | none => some 0
  | some (regular, stSize) =>
      if regular ∧ 0 < stSize.toInt then
        match maildirToEmail cwd userdir with
        | .error _ => none
        | .ok email =>
            match (cut '@' email).2 with
            | none => some (-1)
            | some domain =>
                if domain.length < domainSize then
                  match calls.vgetLimits domain with
                  | none => some 0
                  | some limits => overLimits calls stSize domain limits
                else none
      else some 0

/-! ## `quota_check_domain` -/

/-- `quota_check_domain`, which compares as `quota_compare` does. -/
def quotaCheckDomain (calls : Calls) (domain : List Char) : Nat :=
  match calls.vgetLimits domain with
  | none => 0
  | some limits =>
      if domainSize - 2 ≤ domain.length then 0
      else
        match calls.clientQueryQuick ('@' :: domain) with
        | none => 0
        | some usage =>
            if usage.susage = -1 then 0 else if overDomainQuota limits usage then 1 else 0

/-! ## Exact decisions -/

/-- A message for a user of a domain, whose limits are not negative. -/
structure Delivery where
  cwd : List Char
  userdir : List Char
  user : List Char
  domain : List Char
  domdir : List Char
  limits : Vlimits
  stSize : BitVec 64
  leads : maildirToEmail cwd userdir = .ok (user ++ '@' :: domain)
  first : Free '@' user
  short : domain.length + 2 < domainSize
  diskquota : 0 ≤ limits.diskquota.toInt
  maxmsgcount : 0 ≤ limits.maxmsgcount.toInt
  nonempty : 0 < stSize.toInt

namespace Delivery

variable (delivery : Delivery)

/-- The calls find what the delivery is about. -/
structure Finds (calls : Calls) : Prop where
  fstat : calls.fstat = some (true, delivery.stSize)
  limits : calls.vgetLimits delivery.domain = some delivery.limits
  assign : calls.vgetAssign delivery.domain = some delivery.domdir

/-- The usage comes from the daemon. -/
structure FromDaemon (usage : Usage) (calls : Calls) : Prop extends delivery.Finds calls where
  reply : calls.clientQueryQuick ('@' :: delivery.domain) = some usage

/-- The same usage comes from the files. -/
structure FromFiles (usage : Usage) (calls : Calls) : Prop extends delivery.Finds calls where
  silent : calls.clientQueryQuick ('@' :: delivery.domain) = none
  sum : ∃ used, calls.readdomainquota delivery.domdir = some used ∧
    used.1.toInt = usage.susage.toNat ∧ used.2.toInt = usage.cusage.toNat

/-- The message would exceed one of the limits. -/
def Exceeds (usage : Usage) : Prop :=
  0 < delivery.limits.diskquota.toInt ∧
      delivery.limits.diskquota.toInt * 1024 * 1024 <
        usage.susage.toNat + delivery.stSize.toInt ∨
    0 < delivery.limits.maxmsgcount.toInt ∧
      delivery.limits.maxmsgcount.toInt < usage.cusage.toNat + 1

/-- What `domain_over_maildirquota` returns tells whether a limit would be exceeded. -/
def Exact (usage : Usage) (calls : Calls) : Prop :=
  ∃ exceeded : Bool, domainOverMaildirquota calls delivery.cwd delivery.userdir =
      some (if exceeded then 1 else 0) ∧
    (exceeded = true ↔ delivery.Exceeds usage)

/-- The limits of the delivery, without the one on messages. -/
def diskOnly : Vlimits := { delivery.limits with maxmsgcount := 0 }

/-- The limit on the disk is reached at the number of bytes that `domain_over_maildirquota`
makes of it. -/
def SameBytes : Prop :=
  ∃ bytes, maxsize delivery.limits = some bytes ∧
    ∀ calls, calls.vgetLimits delivery.domain = some delivery.diskOnly →
      ∀ usage, usage.susage ≠ -1 → calls.clientQueryQuick ('@' :: delivery.domain) = some usage →
        (quotaCheckDomain calls delivery.domain = 1 ↔ bytes ≠ 0 ∧ bytes ≤ usage.susage)

/-- The decisions are exact, agree, and are about the same bytes. -/
structure Consistent (usage : Usage) : Prop where
  daemon : ∀ calls, delivery.FromDaemon usage calls → delivery.Exact usage calls
  files : ∀ calls, delivery.FromFiles usage calls → delivery.Exact usage calls
  same : ∀ calls others, delivery.FromDaemon usage calls → delivery.FromFiles usage others →
    ∃ exceeded, domainOverMaildirquota calls delivery.cwd delivery.userdir = some exceeded ∧
      domainOverMaildirquota others delivery.cwd delivery.userdir = some exceeded
  bytes : delivery.SameBytes

end Delivery

/-! ## Limits and usages as numbers -/

section Numbers

theorem toNat_signExtend {word : BitVec 32} (nonneg : 0 ≤ word.toInt) :
    ((word.signExtend 64).toNat : Int) = word.toInt := by
  have same : (word.signExtend 64).toInt = word.toInt := BitVec.toInt_signExtend_of_le (by decide)
  have bound : word.toInt < 2 ^ 31 := BitVec.toInt_lt
  rw [BitVec.toInt_eq_toNat_cond] at same
  split at same
  · exact same
  · have small := (word.signExtend 64).isLt
    omega

theorem toNat_of_toInt {word : BitVec 64} (nonneg : 0 ≤ word.toInt) :
    (word.toNat : Int) = word.toInt := by
  rw [BitVec.toInt_eq_toNat_cond] at nonneg ⊢
  split at nonneg
  · next small => rw [if_pos small]
  · have small := word.isLt
    omega

theorem toInt_eq_zero {word : BitVec 32} : word.toInt = 0 ↔ word = 0 :=
  ⟨fun zero => BitVec.eq_of_toInt_eq zero, fun zero => by rw [zero]; rfl⟩

theorem maxsize_of_lt {limits : Vlimits} (nonneg : 0 ≤ limits.diskquota.toInt)
    (small : limits.diskquota.toInt < 2048) :
    ∃ bytes, maxsize limits = some bytes ∧
      (bytes.toNat : Int) = limits.diskquota.toInt * 1024 * 1024 := by
  have kilobytes : signed 32 (limits.diskquota.toInt * 1024) =
      some (limits.diskquota.toInt * 1024) := signed_of_nonneg (by omega) (by omega)
  have bytes : signed 32 (limits.diskquota.toInt * 1024 * 1024) =
      some (limits.diskquota.toInt * 1024 * 1024) := signed_of_nonneg (by omega) (by omega)
  refine ⟨_, by rw [maxsize, kilobytes, Option.bind_some, bytes, Option.map_some], ?_⟩
  change ((BitVec.ofInt 64 _).toNat : Int) = _
  rw [BitVec.toNat_ofInt]
  omega

theorem maxsize_of_le {limits : Vlimits} (large : 2048 ≤ limits.diskquota.toInt) :
    maxsize limits = none := by
  have bound : limits.diskquota.toInt < 2 ^ 31 := BitVec.toInt_lt
  rw [maxsize]
  by_cases kilobytes : limits.diskquota.toInt * 1024 < 2 ^ 31
  · rw [signed_of_nonneg (by omega) kilobytes, Option.bind_some, signed_overflow (by omega)]
    rfl
  · rw [signed_overflow (by omega)]
    rfl

variable {bytes : UInt64} {maxcnt : BitVec 32} {stSize : BitVec 64}

theorem overDaemon_iff (usage : Usage) (nonneg : 0 ≤ maxcnt.toInt) (nonempty : 0 < stSize.toInt) :
    overDaemon bytes maxcnt stSize usage = true ↔
      (bytes.toNat : Int) < (usage.susage.toNat + stSize.toInt) % 2 ^ 64 ∨
        0 < maxcnt.toInt ∧ maxcnt.toInt ≤ usage.cusage.toNat := by
  have size : ((UInt64.ofBitVec stSize).toNat : Int) = stSize.toInt :=
    toNat_of_toInt (Int.le_of_lt nonempty)
  have count : ((UInt64.ofBitVec (maxcnt.signExtend 64)).toNat : Int) = maxcnt.toInt :=
    toNat_signExtend nonneg
  have limited : maxcnt ≠ 0 ↔ 0 < maxcnt.toInt := by
    rw [Ne, ← toInt_eq_zero]
    omega
  rw [overDaemon, Bool.or_eq_true, Bool.and_eq_true, decide_eq_true_iff, decide_eq_true_iff,
    decide_eq_true_iff, limited, UInt64.lt_iff_toNat_lt, UInt64.le_iff_toNat_le, UInt64.toNat_add,
    ← size, ← count]
  omega

theorem overFiles_of_pos (maxcnt : BitVec 32) (positive : 0 < bytes.toNat)
    {used : BitVec 64 × BitVec 32}
    (nonneg : 0 ≤ used.1.toInt) (nonempty : 0 < stSize.toInt)
    (small : used.1.toInt + stSize.toInt < 2 ^ 63) :
    ∃ exceeded, overFiles bytes maxcnt stSize used = some exceeded ∧
      (exceeded = true ↔ (bytes.toNat : Int) < used.1.toInt + stSize.toInt ∨
        0 < maxcnt.toInt ∧ maxcnt.toInt ≤ used.2.toInt) := by
  have limited : 0 < bytes := UInt64.lt_iff_toNat_lt.mpr positive
  rw [overFiles, if_pos limited, signed_of_nonneg (by omega) small, Option.map_some]
  refine ⟨_, rfl, ?_⟩
  have total : ((UInt64.ofBitVec (BitVec.ofInt 64 (used.1.toInt + stSize.toInt))).toNat : Int) =
      used.1.toInt + stSize.toInt := by
    change ((BitVec.ofInt 64 _).toNat : Int) = _
    rw [BitVec.toNat_ofInt]
    omega
  rw [Bool.or_eq_true, Bool.and_eq_true, decide_eq_true_iff, decide_eq_true_iff,
    decide_eq_true_iff, UInt64.lt_iff_toNat_lt, ← Int.ofNat_lt, total]

theorem overFiles_overflow (positive : 0 < bytes.toNat) {used : BitVec 64 × BitVec 32}
    (large : 2 ^ 63 ≤ used.1.toInt + stSize.toInt) :
    overFiles bytes maxcnt stSize used = none := by
  have limited : 0 < bytes := UInt64.lt_iff_toNat_lt.mpr positive
  rw [overFiles, if_pos limited, signed_overflow large]
  rfl

theorem overFiles_unlimited (maxcnt : BitVec 32) (stSize : BitVec 64)
    (used : BitVec 64 × BitVec 32) :
    ∃ exceeded, overFiles 0 maxcnt stSize used = some exceeded ∧
      (exceeded = true ↔ 0 < maxcnt.toInt ∧ maxcnt.toInt ≤ used.2.toInt) := by
  refine ⟨_, rfl, ?_⟩
  rw [Bool.and_eq_true, decide_eq_true_iff, decide_eq_true_iff]

theorem overDomainQuota_iff (limits : Vlimits) (diskquota : 0 ≤ limits.diskquota.toInt)
    (maxmsgcount : 0 ≤ limits.maxmsgcount.toInt) (usage : Usage) :
    overDomainQuota limits usage = true ↔
      0 < limits.diskquota.toInt ∧ limits.diskquota.toInt * 1000000 ≤ usage.susage.toNat ∨
        0 < limits.maxmsgcount.toInt ∧ limits.maxmsgcount.toInt ≤ usage.cusage.toNat := by
  have size : ((UInt64.ofBitVec (limits.diskquota.signExtend 64)).toNat : Int) =
      limits.diskquota.toInt := toNat_signExtend diskquota
  have count : ((UInt64.ofBitVec (limits.maxmsgcount.signExtend 64)).toNat : Int) =
      limits.maxmsgcount.toInt := toNat_signExtend maxmsgcount
  have million : (1000000 : UInt64).toNat = 1000000 := rfl
  rw [overDomainQuota]
  simp only [Bool.or_eq_true, Bool.and_eq_true, decide_eq_true_iff, Ne, ← toInt_eq_zero,
    ← UInt64.toNat_inj, UInt64.le_iff_toNat_le, UInt64.toNat_div, UInt64.toNat_zero, million]
  omega

end Numbers

/-! ## Where the decisions are exact -/

namespace Delivery

variable {delivery : Delivery} {usage : Usage} {calls : Calls}

theorem Finds.domainOver_eq (finds : delivery.Finds calls) :
    domainOverMaildirquota calls delivery.cwd delivery.userdir =
      overLimits calls delivery.stSize delivery.domain delivery.limits := by
  have short : delivery.domain.length < domainSize := by
    have short := delivery.short
    omega
  rw [domainOverMaildirquota, finds.fstat]
  simp only [true_and, if_pos delivery.nonempty]
  rw [delivery.leads]
  simp only [cut_append_cons delivery.first, if_pos short]
  rw [finds.limits]

theorem FromDaemon.overLimits_eq (told : delivery.FromDaemon usage calls) {bytes : UInt64}
    (known : maxsize delivery.limits = some bytes) :
    overLimits calls delivery.stSize delivery.domain delivery.limits =
      if bytes = 0 ∧ delivery.limits.maxmsgcount = 0 then some 0
      else some (if overDaemon bytes delivery.limits.maxmsgcount delivery.stSize usage then 1
        else 0) := by
  rw [overLimits, known, Option.bind_some, told.assign]
  simp only [if_pos delivery.short, told.reply]

theorem FromFiles.overLimits_eq (told : delivery.FromFiles usage calls) {bytes : UInt64}
    (known : maxsize delivery.limits = some bytes) {used : BitVec 64 × BitVec 32}
    (sum : calls.readdomainquota delivery.domdir = some used) :
    overLimits calls delivery.stSize delivery.domain delivery.limits =
      if bytes = 0 ∧ delivery.limits.maxmsgcount = 0 then some 0
      else (overFiles bytes delivery.limits.maxmsgcount delivery.stSize used).map fun exceeded =>
        if exceeded then 1 else 0 := by
  rw [overLimits, known, Option.bind_some, told.assign]
  simp only [if_pos delivery.short, told.silent, sum]

theorem Finds.domainOver_overflow (finds : delivery.Finds calls)
    (large : 2048 ≤ delivery.limits.diskquota.toInt) :
    domainOverMaildirquota calls delivery.cwd delivery.userdir = none := by
  rw [finds.domainOver_eq, overLimits, maxsize_of_le large]
  rfl

theorem answer_iff {unlimited exceeds : Prop} [Decidable unlimited] {exceeded : Bool} :
    (∃ answer : Bool, (if unlimited then some (0 : Int) else some (if exceeded then 1 else 0)) =
        some (if answer then 1 else 0) ∧
      (answer = true ↔ exceeds)) ↔ (¬unlimited ∧ exceeded = true ↔ exceeds) := by
  by_cases early : unlimited
  · simp [early]
  · cases exceeded <;> simp [early]

/-- Where messages are limited and the disk is not, a usage from the daemon is over, and a sum
that wraps around may not be. -/
theorem FromDaemon.exact_daemon_iff (told : delivery.FromDaemon usage calls) :
    delivery.Exact usage calls ↔ delivery.limits.diskquota.toInt < 2048 ∧
      (0 < delivery.limits.maxmsgcount.toInt ∧
          delivery.limits.maxmsgcount.toInt ≤ usage.cusage.toNat ∨
        delivery.limits.diskquota.toInt = 0 ∧ (delivery.limits.maxmsgcount.toInt = 0 ∨
          usage.susage.toNat + delivery.stSize.toInt = 2 ^ 64) ∨
        0 < delivery.limits.diskquota.toInt ∧
          (usage.susage.toNat + delivery.stSize.toInt < 2 ^ 64 ∨
            delivery.limits.diskquota.toInt * 1024 * 1024 + 2 ^ 64 <
              usage.susage.toNat + delivery.stSize.toInt)) := by
  have diskquota := delivery.diskquota
  have maxmsgcount := delivery.maxmsgcount
  have nonempty := delivery.nonempty
  have size : delivery.stSize.toInt < 2 ^ 63 := BitVec.toInt_lt
  have used : usage.susage.toNat < 2 ^ 64 := usage.susage.toNat_lt
  by_cases small : delivery.limits.diskquota.toInt < 2048
  · obtain ⟨bytes, known, value⟩ := maxsize_of_lt diskquota small
    have none : bytes = 0 ↔ delivery.limits.diskquota.toInt = 0 := by
      rw [← UInt64.toNat_inj, UInt64.toNat_zero]
      omega
    rw [and_iff_right small, Exact, told.domainOver_eq, told.overLimits_eq known, answer_iff,
      overDaemon_iff usage maxmsgcount nonempty, Exceeds, ← toInt_eq_zero, none, value]
    omega
  · rw [Exact, told.domainOver_overflow (by omega)]
    exact iff_of_false (fun impossible => nomatch impossible.choose_spec.1) fun both => small both.1

theorem FromFiles.exact_files_iff (told : delivery.FromFiles usage calls) :
    delivery.Exact usage calls ↔ delivery.limits.diskquota.toInt < 2048 ∧
      (delivery.limits.diskquota.toInt = 0 ∨
        usage.susage.toNat + delivery.stSize.toInt < 2 ^ 63) := by
  have diskquota := delivery.diskquota
  have maxmsgcount := delivery.maxmsgcount
  have nonempty := delivery.nonempty
  obtain ⟨used, sum, susage, cusage⟩ := told.sum
  by_cases small : delivery.limits.diskquota.toInt < 2048
  · obtain ⟨bytes, known, value⟩ := maxsize_of_lt diskquota small
    rw [and_iff_right small, Exact, told.domainOver_eq, told.overLimits_eq known sum]
    by_cases unlimited : delivery.limits.diskquota.toInt = 0
    · have none : bytes = 0 := by
        rw [← UInt64.toNat_inj, UInt64.toNat_zero]
        omega
      obtain ⟨exceeded, result, exact⟩ :=
        overFiles_unlimited delivery.limits.maxmsgcount delivery.stSize used
      rw [none, result, Option.map_some, answer_iff, exact, Exceeds, ← toInt_eq_zero]
      omega
    · have positive : 0 < bytes.toNat := by omega
      have limited : ¬(bytes = 0 ∧ delivery.limits.maxmsgcount = 0) := by
        rw [← UInt64.toNat_inj, UInt64.toNat_zero]
        omega
      by_cases fits : used.1.toInt + delivery.stSize.toInt < 2 ^ 63
      · obtain ⟨exceeded, result, exact⟩ := overFiles_of_pos delivery.limits.maxmsgcount
          positive (by omega) nonempty fits
        rw [result, Option.map_some, answer_iff, exact, Exceeds, and_iff_right limited]
        omega
      · rw [overFiles_overflow positive (by omega), if_neg limited]
        refine iff_of_false (fun impossible => nomatch impossible.choose_spec.1) ?_
        omega
  · rw [Exact, told.domainOver_overflow (by omega)]
    exact iff_of_false (fun impossible => nomatch impossible.choose_spec.1) fun both => small both.1

/-! ### Replies and sums -/

/-- What the calls return for a delivery. -/
def answered (delivery : Delivery) (limits : Vlimits) (reply : Option Usage)
    (sum : Option (BitVec 64 × BitVec 32)) : Calls where
  fstat := some (true, delivery.stSize)
  vgetLimits := fun _ => some limits
  vgetAssign := fun _ => some delivery.domdir
  clientQueryQuick := fun _ => reply
  readdomainquota := fun _ => sum

theorem fromDaemon_answered (delivery : Delivery) (usage : Usage) :
    delivery.FromDaemon usage (delivery.answered delivery.limits (some usage) none) :=
  ⟨⟨rfl, rfl, rfl⟩, rfl⟩

theorem overDomainQuota_diskOnly (delivery : Delivery) (usage : Usage) :
    overDomainQuota delivery.diskOnly usage = true ↔ 0 < delivery.limits.diskquota.toInt ∧
      delivery.limits.diskquota.toInt * 1000000 ≤ usage.susage.toNat := by
  rw [overDomainQuota_iff delivery.diskOnly delivery.diskquota (Int.le_refl 0)]
  exact or_iff_left fun both => Int.lt_irrefl 0 both.1

theorem quotaCheckDomain_iff {domain : List Char} (short : domain.length + 2 < domainSize)
    {limits : Vlimits} (known : calls.vgetLimits domain = some limits)
    (reply : calls.clientQueryQuick ('@' :: domain) = some usage) (measured : usage.susage ≠ -1) :
    quotaCheckDomain calls domain = 1 ↔ overDomainQuota limits usage = true := by
  have short : ¬domainSize - 2 ≤ domain.length := by
    rw [domainSize] at short ⊢
    omega
  rw [quotaCheckDomain, known]
  simp only [if_neg short, reply, if_neg measured]
  cases overDomainQuota limits usage <;> decide

theorem sameBytes_iff : delivery.SameBytes ↔ delivery.limits.diskquota.toInt = 0 := by
  have diskquota := delivery.diskquota
  constructor
  · intro given
    obtain ⟨bytes, known, same⟩ := given
    by_contra limited
    have small : delivery.limits.diskquota.toInt < 2048 := by
      by_contra large
      rw [maxsize_of_le (by omega)] at known
      cases known
    obtain ⟨_, equal, value⟩ := maxsize_of_lt diskquota small
    rw [known, Option.some.injEq] at equal
    rw [← equal] at value
    let usage : Usage := ⟨UInt64.ofNat (delivery.limits.diskquota.toInt.toNat * 1000000), 0⟩
    have used : usage.susage.toNat = delivery.limits.diskquota.toInt.toNat * 1000000 :=
      UInt64.toNat_ofNat_of_lt' (by rw [UInt64.size]; omega)
    have measured : usage.susage ≠ -1 := by
      intro equal
      have minus : (-1 : UInt64).toNat = 2 ^ 64 - 1 := rfl
      rw [equal, minus] at used
      omega
    have reached := (same (delivery.answered delivery.diskOnly (some usage) none) rfl usage
      measured rfl).mp
    rw [quotaCheckDomain_iff delivery.short rfl rfl measured, overDomainQuota_diskOnly,
      UInt64.le_iff_toNat_le, used] at reached
    have below := (reached (by omega)).2
    omega
  · intro unlimited
    obtain ⟨bytes, known, value⟩ := maxsize_of_lt diskquota (by omega)
    have none : bytes = 0 := by
      rw [← UInt64.toNat_inj, UInt64.toNat_zero]
      omega
    refine ⟨bytes, known, fun calls limits usage measured reply => ?_⟩
    rw [quotaCheckDomain_iff delivery.short limits reply measured, overDomainQuota_diskOnly]
    refine iff_of_false ?_ fun both => both.1 none
    omega

/-- Everything is consistent on exactly the domains without a limit on the disk, as long as their
messages are not limited, or over the limit already, or a sum of 2^64 wraps around. -/
theorem consistent_iff (delivery : Delivery) (usage : Usage) :
    delivery.Consistent usage ↔ delivery.limits.diskquota.toInt = 0 ∧
      (delivery.limits.maxmsgcount.toInt = 0 ∨
        delivery.limits.maxmsgcount.toInt ≤ usage.cusage.toNat ∨
        usage.susage.toNat + delivery.stSize.toInt = 2 ^ 64) := by
  have maxmsgcount := delivery.maxmsgcount
  constructor
  · intro consistent
    have unlimited := sameBytes_iff.mp consistent.bytes
    have told := delivery.fromDaemon_answered usage
    have exact := told.exact_daemon_iff.mp (consistent.daemon _ told)
    omega
  · intro given
    obtain ⟨unlimited, counted⟩ := given
    have daemon : ∀ calls, delivery.FromDaemon usage calls → delivery.Exact usage calls := by
      intro calls told
      rw [told.exact_daemon_iff]
      omega
    have files : ∀ calls, delivery.FromFiles usage calls → delivery.Exact usage calls := by
      intro calls told
      rw [told.exact_files_iff]
      omega
    refine ⟨daemon, files, fun calls others told toldOther => ?_, sameBytes_iff.mpr unlimited⟩
    obtain ⟨exceeded, result, exact⟩ := daemon calls told
    obtain ⟨other, otherResult, otherExact⟩ := files others toldOther
    have same : exceeded = other := Bool.eq_iff_iff.mpr (exact.trans otherExact.symm)
    exact ⟨_, result, same ▸ otherResult⟩

end Delivery

/-- A message of one byte for a domain with at most ten messages, and any number of bytes. -/
def tenMessages : Delivery where
  cwd := []
  userdir := ['/', 'd', '/', 'x', '.', 'y', '/', 'u'] ++ maildirSlash
  user := ['u']
  domain := ['x', '.', 'y']
  domdir := ['/', 'd', '/', 'x', '.', 'y']
  limits := { vdefaultLimits with maxmsgcount := 10 }
  stSize := 1
  leads := by decide
  first := by decide
  short := by decide
  diskquota := by decide
  maxmsgcount := by decide
  nonempty := by decide

/-- By the daemon, the first message is over. -/
theorem consistent_tenMessages :
    ¬∀ (delivery : Delivery) (usage : Usage), delivery.Consistent usage := by
  intro consistent
  have told := tenMessages.fromDaemon_answered ⟨0, 0⟩
  have exact := told.exact_daemon_iff.mp ((consistent tenMessages ⟨0, 0⟩).daemon _ told)
  revert exact
  decide

end Vpopmail.DomainQuota

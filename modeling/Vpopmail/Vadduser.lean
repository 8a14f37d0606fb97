import Vpopmail.AssignLookup
import Vpopmail.Pwstr
import Vpopmail.QuotaMeaning
import Vpopmail.Vlimits

/-! # The quota of new users

`vadduser` prints the defaults of the domain into a quota and stores it with
`vsetuserquota`, whose refusals it does not look at.
-/

namespace Vpopmail.Vadduser

open Vpopmail Text Buffer Decimal Maildirquota

/-! ## Codes -/

def vaBadUDir : Int := -4
def vaBadDDir : Int := -5
def vaInvalidDomainName : Int := -12
def vaBadChar : Int := -20
def vaNoAuthConnection : Int := -23
def vaCannotReadLimits : Int := -36
def vaUnknownUidgid : Int := -67

/-! ## Adding a user -/

/-- The quota that the backend keeps for the user, if it knows the user. -/
abbrev Kept := Option (List Char)

/-- What the calls of `vadduser` find, in their order. `found` is whether `vauth_getpw` knows
the new user in the first and in the second call of `vsetuserquota`, and `sets` what
`vauth_setquota` returns. -/
structure Surroundings where
  usersBigDir : Bool
  doubles : Doubles
  rules : Pwstr.Rules
  uidgid : Bool
  known : Bool
  cdb : Option Cdb
  cache : AssignCache
  limits : Option Vlimits
  enters : Bool
  userHash : Except Int (List Char)
  stores : Bool
  found : Bool × Bool
  sets : Int
  logs : Option Bool

/-- The quota in the defaults of a domain. -/
def defaultQuota (limits : Vlimits) : List Char :=
  let quota := limits.defaultquota.toInt
  let count := limits.defaultmaxmsgcount.toInt
  if 0 < quota then
    if 0 < count then snprintf 50 (spellInt quota ++ ['S', ','] ++ spellInt count ++ ['C'])
    else snprintf 50 (spellInt quota ++ ['S'])
  else if 0 < count then snprintf 50 (spellInt count ++ ['C'])
  else "NOQUOTA".toList

section Functions

variable (surroundings : Surroundings)

/-- `vsetuserquota`. -/
def vsetuserquota (found : Bool) (username domain quota : List Char) (kept : Kept) :
    Checked (Int × Kept) :=
  if maxPwName < username.length then .ok (VaCode.userNameTooLong.number, kept)
  else if surroundings.usersBigDir && username.length = 1 then
    .ok (VaCode.illegalUsername.number, kept)
  else if maxPwDomain < domain.length then .ok (VaCode.domainNameTooLong.number, kept)
  else if maxPwQuota < quota.length then .ok (VaCode.quotaTooLong.number, kept)
  else if !found then .ok (VaCode.userDoesNotExist.number, kept)
  else
    (formatMaildirquota surroundings.doubles quota).map fun formattedquota =>
      if surroundings.sets ≠ 0 then (surroundings.sets, kept)
      else (0, some formattedquota)

/-- The call of `vsetuserquota`, and the one after some time if the user is not there. -/
def setDefaultQuota (username domain quota : List Char) (kept : Kept) : Checked Kept :=
  (vsetuserquota surroundings surroundings.found.1 username domain quota kept).bind
    fun first =>
      if first.1 = VaCode.userDoesNotExist.number then
        (vsetuserquota surroundings surroundings.found.2 username domain quota first.2).map
          (·.2)
      else .ok first.2

/-- `vadduser`, from where the user is added to the backend. -/
def storeUser (username domain : List Char) (limits : Vlimits) (kept : Kept) :
    Checked (Int × Kept) :=
  if !surroundings.stores then .ok (vaNoAuthConnection, kept)
  else
    -- all backends add users without a quota
    (setDefaultQuota surroundings username domain (defaultQuota limits)
      (some "NOQUOTA".toList)).map fun kept =>
        if surroundings.logs = some false then (vaNoAuthConnection, kept) else (0, kept)

/-- The checks of the arguments in their order, with what is returned if they find fault. -/
def checks (username domain password gecos : List Char) : List (Bool × Int) :=
  let strength := Pwstr.pwStrength surroundings.rules (some password)
  [ (gecos.contains ':', vaBadChar),
    (decide (maxPwName < username.length), VaCode.userNameTooLong.number),
    (surroundings.usersBigDir && username.length = 1, VaCode.illegalUsername.number),
    (decide (maxPwDomain < domain.length), VaCode.domainNameTooLong.number),
    (decide (domain.length < 3), vaInvalidDomainName),
    (decide (maxPwClearPasswd < password.length), VaCode.passwdTooLong.number),
    (decide (maxPwGecos < gecos.length), VaCode.gecosTooLong.number),
    (!isUsernameValid (lowerit username), VaCode.illegalUsername.number),
    (!isDomainValid (lowerit domain), vaInvalidDomainName),
    (surroundings.known, VaCode.usernameExists.number),
    (decide (strength ≠ 1), strength) ]

/-- `vadduser`, with the quota that is kept behind it. -/
def vadduser (username domain password gecos : List Char) (kept : Kept) :
    Checked (Int × Kept) :=
  if !surroundings.uidgid then .ok (vaUnknownUidgid, kept)
  else
    match (checks surroundings username domain password gecos).find? (·.1) with
    | some check => .ok (check.2, kept)
    | none =>
        let answer := (vgetAssign surroundings.cdb
          ⟨some (lowerit domain), some maxBuff, true, true⟩ surroundings.cache).1
        if answer.returned = none then .ok (VaCode.domainDoesNotExist.number, kept)
        else
          match surroundings.limits with
          | none => .ok (vaCannotReadLimits, kept)
          | some limits =>
              if !surroundings.enters then .ok (vaBadDDir, kept)
              else
                match surroundings.userHash with
                | .error verrori => .ok (if verrori ≠ 0 then verrori else vaBadUDir, kept)
                | .ok _ =>
                    storeUser surroundings (lowerit username) (answer.domain.getD []) limits kept

end Functions

/-! ## Calls that succeed -/

section Success

variable {surroundings : Surroundings} {username domain password gecos : List Char}
  {kept after : Kept}

theorem not_refused {code : Int} (other : code ≠ 0)
    (returned : (.ok (code, kept) : Checked (Int × Kept)) = .ok (0, after)) : False := by
  have same := Except.ok.inj returned
  exact other (Prod.ext_iff.mp same).1

theorem pwStrength_ne_zero (rules : Pwstr.Rules) (password : List Char) :
    Pwstr.pwStrength rules (some password) ≠ 0 := by
  simp only [Pwstr.pwStrength]
  split_ifs <;> decide

theorem length_lowerit (name : List Char) : (lowerit name).length ≤ name.length := by
  rw [lowerit, List.length_map, List.length_take]
  exact Nat.min_le_right _ _

/-- The name that `vget_assign` leaves fits its buffer. -/
theorem length_domain_le (cdb : Option Cdb) (cache : AssignCache) {name : List Char}
    (short : name.length ≤ maxPwDomain) :
    ((vgetAssign cdb ⟨some name, some maxBuff, true, true⟩ cache).1.domain.getD []).length ≤
      maxPwDomain := by
  have lowered := (length_lowerit name).trans short
  have read : ∀ cache, ((readAssign cdb ⟨some name, some maxBuff, true, true⟩ (lowerit name)
      cache).1.domain.getD []).length ≤ maxPwDomain := by
    intro cache
    cases cdb with
    | none => exact lowered
    | some find =>
        rw [readAssign]
        simp only
        split
        · exact lowered
        · rw [Option.getD_some, snprintf, List.length_take]
          exact Nat.min_le_left _ _
  cases name with
  | nil => exact Nat.zero_le _
  | cons head tail =>
      rw [vgetAssign]
      simp only
      split
      · exact read cache
      · split
        · exact lowered
        · exact read cache

theorem length_lowerit_of_le {name : List Char} (short : name.length ≤ maxPwName) :
    (lowerit name).length = name.length := by
  have bound : maxPwName ≤ 156 := by decide
  rw [lowerit, List.length_map, List.length_take]
  omega

/-- A call of `storeUser` that returns zero has set the quota. -/
theorem storeUser_success {limits : Vlimits}
    (returned : storeUser surroundings username domain limits kept = .ok (0, after)) :
    setDefaultQuota surroundings username domain (defaultQuota limits)
      (some "NOQUOTA".toList) = .ok after := by
  rw [storeUser] at returned
  split at returned
  · exact (not_refused (by decide) returned).elim
  · cases set : setDefaultQuota surroundings username domain (defaultQuota limits)
        (some "NOQUOTA".toList) with
    | error fault =>
        rw [set] at returned
        cases returned
    | ok kept =>
        rw [set, Except.map] at returned
        split at returned
        · exact (not_refused (by decide) returned).elim
        · have same := Prod.ext_iff.mp (Except.ok.inj returned)
          exact congrArg Except.ok same.2

/-- The codes of the checks are errors. -/
theorem checks_ne_zero :
    ∀ check ∈ checks surroundings username domain password gecos, check.2 ≠ 0 := by
  have strength := pwStrength_ne_zero surroundings.rules password
  simp only [checks, List.forall_mem_cons]
  exact ⟨by decide, by decide, by decide, by decide, by decide, by decide, by decide, by decide,
    by decide, by decide, strength, List.forall_mem_nil _⟩

theorem checks_passed
    (passed : ∀ check ∈ checks surroundings username domain password gecos, check.1 = false) :
    username.length ≤ maxPwName ∧ (surroundings.usersBigDir && username.length = 1) = false ∧
      domain.length ≤ maxPwDomain := by
  simp only [checks, List.forall_mem_cons] at passed
  rcases passed with ⟨_, nameShort, notSingle, domainShort, _⟩
  exact ⟨Nat.le_of_not_lt (of_decide_eq_false nameShort), notSingle,
    Nat.le_of_not_lt (of_decide_eq_false domainShort)⟩

/-- What a call that returns `VA_SUCCESS` has passed. -/
theorem vadduser_success
    (returned : vadduser surroundings username domain password gecos kept = .ok (0, after)) :
    ∃ limits name, surroundings.limits = some limits ∧
      (lowerit username).length ≤ maxPwName ∧ name.length ≤ maxPwDomain ∧
      (surroundings.usersBigDir && (lowerit username).length = 1) = false ∧
      setDefaultQuota surroundings (lowerit username) name (defaultQuota limits)
        (some "NOQUOTA".toList) = .ok after := by
  rw [vadduser] at returned
  split at returned
  · exact (not_refused (by decide) returned).elim
  cases checked : (checks surroundings username domain password gecos).find? (·.1) with
  | some check =>
      simp only [checked] at returned
      exact (not_refused (checks_ne_zero check (List.mem_of_find?_eq_some checked)) returned).elim
  | none =>
      have passed : ∀ check ∈ checks surroundings username domain password gecos,
          check.1 = false := by
        intro check member
        simpa using List.find?_eq_none.mp checked check member
      rcases checks_passed passed with ⟨nameShort, notSingle, domainShort⟩
      have size := length_lowerit_of_le nameShort
      simp only [checked] at returned
      split at returned
      · exact (not_refused (by decide) returned).elim
      cases found : surroundings.limits with
      | none =>
          simp only [found] at returned
          exact (not_refused (by decide) returned).elim
      | some limits =>
          simp only [found] at returned
          split at returned
          · exact (not_refused (by decide) returned).elim
          cases made : surroundings.userHash with
          | error verrori =>
              simp only [made] at returned
              refine (not_refused ?_ returned).elim
              split
              · assumption
              · decide
          | ok hash =>
              simp only [made] at returned
              refine ⟨limits, _, rfl, size.trans_le nameShort,
                length_domain_le _ _ ((length_lowerit domain).trans domainShort), ?_,
                storeUser_success returned⟩
              rw [size]
              exact notSingle

end Success

/-! ## The stored quota -/

section Quota

variable {doubles : Doubles} {value : doubles.Value → ℚ}

theorem no_unit_known : [] ∈ [[], ['K'], ['k'], ['M'], ['m']] := by decide

theorem no_byte_known : [] ∈ [[], ['B'], ['b']] := by decide

theorem kind_s_known : ['S'] ∈ [[], ['S'], ['s']] := by decide

/-- A whole number of bytes as it is printed. -/
def sizeOf {bytes : Nat} (small : bytes < 2 ^ 31) (representable : Representable value bytes) :
    Size value where
  number := Number.ofNat bytes
  unit := []
  byte := []
  kind := ['S']
  bytes := bytes
  unitKnown := no_unit_known
  byteKnown := no_byte_known
  kindKnown := kind_s_known
  denotes := by
    rw [Number.value_ofNat]
    simp
  read := by
    rw [Number.value_ofNat]
    exact representable
  scaled := representable
  small := small.trans (by decide)

/-- A number of messages as it is printed. -/
def countOf {messages : Nat} (small : messages < 2 ^ 31) : Maildirquota.Count where
  digits := spellNat messages
  nonempty := spellNat_ne_nil _
  allDigits := fun _ member => isDigit_of_mem_spellNat member
  small := by
    have read : Nat.ofDigitChars 10 (spellNat messages) 0 = messages :=
      Nat.ofDigitChars_ten_toDigits
    rw [read]
    exact small.trans (by decide)

/-- The size of the defaults in bytes, zero for none. -/
def defaultBytes (limits : Vlimits) : Nat := limits.defaultquota.toInt.toNat

/-- The messages of the defaults, zero for no limit. -/
def defaultMessages (limits : Vlimits) : Nat := limits.defaultmaxmsgcount.toInt.toNat

theorem toNat_toInt_lt (number : BitVec 32) : number.toInt.toNat < 2 ^ 31 := by
  have upper := number.toInt_lt
  omega

theorem spellInt_of_pos {number : Int} (positive : 0 < number) :
    spellInt number = spellNat number.toNat := by
  obtain ⟨natural, rfl⟩ := Int.eq_ofNat_of_zero_le positive.le
  rfl

theorem length_spellNat_lt {number : Nat} (small : number < 2 ^ 31) :
    (spellNat number).length ≤ 10 :=
  length_spellNat_le (by decide) (small.trans (by decide))

theorem snprintf_short {size : Nat} {text : List Char} (short : text.length < size) :
    snprintf size text = text := by
  apply List.take_of_length_le
  omega

theorem text_sizeOf {bytes : Nat} (small : bytes < 2 ^ 31)
    (representable : Representable value bytes) :
    (sizeOf small representable).text = spellNat bytes ++ ['S'] := by
  simp only [sizeOf, Size.text, Number.text_ofNat, List.append_nil]

theorem messages_countOf {messages : Nat} (small : messages < 2 ^ 31) :
    (countOf small).messages = messages :=
  Nat.ofDigitChars_ten_toDigits

/-- What the defaults print: nothing, or a quota that denotes them. -/
theorem defaultQuota_cases (integers : ∀ number < 2 ^ 31, Representable value (number : Nat))
    (limits : Vlimits) :
    defaultQuota limits = "NOQUOTA".toList ∧ defaultBytes limits = 0 ∧
        defaultMessages limits = 0 ∨
      ∃ quota : Maildirquota.Quota value, quota.text = defaultQuota limits ∧
        quota.bytes.getD 0 = defaultBytes limits ∧
        quota.messages.getD 0 = defaultMessages limits := by
  have sizeSmall := toNat_toInt_lt limits.defaultquota
  have countSmall := toNat_toInt_lt limits.defaultmaxmsgcount
  have sizeDigits := length_spellNat_lt sizeSmall
  have countDigits := length_spellNat_lt countSmall
  by_cases sized : 0 < limits.defaultquota.toInt
  · have sizeText := text_sizeOf sizeSmall (integers _ sizeSmall)
    by_cases counted : 0 < limits.defaultmaxmsgcount.toInt
    · apply Or.inr
      use .sizeCount (sizeOf sizeSmall (integers _ sizeSmall)) (countOf countSmall)
      refine ⟨?_, rfl, messages_countOf countSmall⟩
      rw [defaultQuota, if_pos sized, if_pos counted, spellInt_of_pos sized,
        spellInt_of_pos counted, snprintf_short, Maildirquota.Quota.text, sizeText]
      · simp [Maildirquota.Count.text, countOf]
      · simp only [List.length_append, List.length_cons, List.length_nil]
        omega
    · apply Or.inr
      use .size (sizeOf sizeSmall (integers _ sizeSmall))
      refine ⟨?_, rfl, ?_⟩
      · rw [defaultQuota, if_pos sized, if_neg counted, spellInt_of_pos sized, snprintf_short,
          Maildirquota.Quota.text, sizeText]
        simp only [List.length_append, List.length_cons, List.length_nil]
        omega
      · exact (Int.toNat_of_nonpos (not_lt.mp counted)).symm
  · have noSize : defaultBytes limits = 0 := Int.toNat_of_nonpos (not_lt.mp sized)
    by_cases counted : 0 < limits.defaultmaxmsgcount.toInt
    · apply Or.inr
      use .count (countOf countSmall)
      refine ⟨?_, noSize.symm, messages_countOf countSmall⟩
      rw [defaultQuota, if_neg sized, if_pos counted, spellInt_of_pos counted, snprintf_short]
      · rfl
      · simp only [List.length_append, List.length_cons, List.length_nil]
        omega
    · apply Or.inl
      rw [defaultQuota, if_neg sized, if_neg counted]
      exact ⟨rfl, noSize, Int.toNat_of_nonpos (not_lt.mp counted)⟩

theorem length_defaultQuota_lt (limits : Vlimits) : (defaultQuota limits).length < 50 := by
  simp only [defaultQuota]
  split_ifs
  iterate 3
    rw [snprintf, List.length_take]
    omega
  decide

/-- Two defaults, where both are set, have at most 17 digits together. -/
def FewDigits (limits : Vlimits) : Prop :=
  0 < limits.defaultquota.toInt → 0 < limits.defaultmaxmsgcount.toInt →
    (spellNat (defaultBytes limits)).length + (spellNat (defaultMessages limits)).length ≤ 17

/-- The quotas of at most `MAX_PW_QUOTA` characters. -/
theorem length_defaultQuota_le_iff (limits : Vlimits) :
    (defaultQuota limits).length ≤ maxPwQuota ↔ FewDigits limits := by
  have sizeDigits := length_spellNat_lt (toNat_toInt_lt limits.defaultquota)
  have countDigits := length_spellNat_lt (toNat_toInt_lt limits.defaultmaxmsgcount)
  by_cases sized : 0 < limits.defaultquota.toInt
  · have sizeText := spellInt_of_pos sized
    by_cases counted : 0 < limits.defaultmaxmsgcount.toInt
    · have countText := spellInt_of_pos counted
      have printed : (defaultQuota limits).length =
          (spellNat (defaultBytes limits)).length +
            (spellNat (defaultMessages limits)).length + 3 := by
        rw [defaultQuota, if_pos sized, if_pos counted, sizeText, countText, snprintf_short]
        · simp only [List.length_append, List.length_cons, List.length_nil, defaultBytes,
            defaultMessages]
          omega
        · simp only [List.length_append, List.length_cons, List.length_nil]
          omega
      rw [printed, maxPwQuota]
      exact ⟨fun short _ _ => Nat.le_of_add_le_add_right short,
        fun few => Nat.add_le_add_right (few sized counted) 3⟩
    · refine iff_of_true ?_ fun _ positive => absurd positive counted
      rw [defaultQuota, if_pos sized, if_neg counted, sizeText, snprintf, List.length_take,
        List.length_append, List.length_singleton, maxPwQuota]
      omega
  · refine iff_of_true ?_ fun positive => absurd positive sized
    rw [defaultQuota, if_neg sized]
    split
    · next counted =>
        rw [spellInt_of_pos counted, snprintf, List.length_take, List.length_append,
          List.length_singleton, maxPwQuota]
        omega
    · decide

/-- The defaults survive the formatting. -/
theorem formatMaildirquota_default (precise : Exact doubles value)
    (integers : ∀ number < 2 ^ 31, Representable value (number : Nat)) (limits : Vlimits) :
    ∃ stored, formatMaildirquota doubles (defaultQuota limits) = .ok stored ∧
      quotaMtos stored = .ok (BitVec.ofNat 64 (defaultBytes limits),
        BitVec.ofNat 64 (defaultMessages limits)) := by
  rcases defaultQuota_cases integers limits with ⟨text, noSize, noCount⟩ |
    ⟨quota, text, bytes, messages⟩
  · rw [text, noSize, noCount]
    exact ⟨_, if_pos rfl, by decide⟩
  · have short : quota.text.length < tempquotaSize := by
      rw [text]
      exact (length_defaultQuota_lt limits).trans (by decide)
    rcases formatMaildirquota_meaning precise quota short with ⟨stored, formatted, _, read⟩
    rw [text] at formatted
    rw [bytes, messages] at read
    exact ⟨stored, formatted, read⟩

end Quota

/-! ## The quota of the new user -/

section Stored

variable {surroundings : Surroundings} {username domain password gecos : List Char}
  {value : surroundings.doubles.Value → ℚ} {kept after : Kept}

/-- A quota that is too long is refused, and nothing reports it. -/
theorem setDefaultQuota_long {name quota : List Char} (nameShort : username.length ≤ maxPwName)
    (domainShort : name.length ≤ maxPwDomain)
    (notSingle : (surroundings.usersBigDir && username.length = 1) = false)
    (long : maxPwQuota < quota.length) :
    setDefaultQuota surroundings username name quota kept = .ok kept := by
  have refused : ∀ found, vsetuserquota surroundings found username name quota kept =
      .ok (VaCode.quotaTooLong.number, kept) := by
    intro found
    rw [vsetuserquota, if_neg (Nat.not_lt.mpr nameShort), notSingle, if_neg Bool.false_ne_true,
      if_neg (Nat.not_lt.mpr domainShort), if_pos long]
  have other : VaCode.quotaTooLong.number ≠ VaCode.userDoesNotExist.number := by decide
  rw [setDefaultQuota, refused, Except.bind]
  simp only [if_neg other]

/-- A quota that fits is stored as it is formatted. -/
theorem setDefaultQuota_short {name quota formatted : List Char}
    (nameShort : username.length ≤ maxPwName) (domainShort : name.length ≤ maxPwDomain)
    (notSingle : (surroundings.usersBigDir && username.length = 1) = false)
    (short : quota.length ≤ maxPwQuota)
    (found : surroundings.found.1 = true ∨ surroundings.found.2 = true)
    (sets : surroundings.sets = 0)
    (format : formatMaildirquota surroundings.doubles quota = .ok formatted) :
    setDefaultQuota surroundings username name quota kept = .ok (some formatted) := by
  have checked : ∀ there, vsetuserquota surroundings there username name quota kept =
      if !there then .ok (VaCode.userDoesNotExist.number, kept)
      else .ok (0, some formatted) := by
    intro there
    rw [vsetuserquota, if_neg (Nat.not_lt.mpr nameShort), notSingle, if_neg Bool.false_ne_true,
      if_neg (Nat.not_lt.mpr domainShort), if_neg (Nat.not_lt.mpr short), format, Except.map, sets]
    rfl
  have other : (0 : Int) ≠ VaCode.userDoesNotExist.number := by decide
  rw [setDefaultQuota, checked]
  cases first : surroundings.found.1 with
  | true =>
      rw [if_neg (show ¬(!true) = true from Bool.false_ne_true), Except.bind]
      simp only [if_neg other]
  | false =>
      rw [first] at found
      have second := found.resolve_left Bool.false_ne_true
      change (vsetuserquota surroundings surroundings.found.2 username name quota kept).map _ = _
      rw [checked, second]
      rfl

/-- The new user has the defaults of the domain exactly when they have few digits. -/
theorem vadduser_quota_iff (precise : Exact surroundings.doubles value)
    (integers : ∀ number < 2 ^ 31, Representable value (number : Nat))
    (found : surroundings.found.1 = true ∨ surroundings.found.2 = true)
    (sets : surroundings.sets = 0)
    (returned : vadduser surroundings username domain password gecos kept = .ok (0, after)) :
    ∃ limits, surroundings.limits = some limits ∧ ∃ stored, after = some stored ∧
      (quotaMtos stored = .ok (BitVec.ofNat 64 (defaultBytes limits),
          BitVec.ofNat 64 (defaultMessages limits)) ↔
        FewDigits limits) := by
  rcases vadduser_success returned with
    ⟨limits, name, read, nameShort, domainShort, notSingle, set⟩
  refine ⟨limits, read, ?_⟩
  rcases formatMaildirquota_default precise integers limits with ⟨formatted, format, denotes⟩
  rw [← length_defaultQuota_le_iff]
  by_cases short : (defaultQuota limits).length ≤ maxPwQuota
  · have stored : setDefaultQuota surroundings (lowerit username) name (defaultQuota limits)
        (some "NOQUOTA".toList) = .ok (some formatted) :=
      setDefaultQuota_short nameShort domainShort notSingle short found sets format
    rw [set, Except.ok.injEq] at stored
    exact ⟨formatted, stored, iff_of_true denotes short⟩
  · have long := Nat.lt_of_not_le short
    have stored : setDefaultQuota surroundings (lowerit username) name (defaultQuota limits)
        (some "NOQUOTA".toList) = .ok (some "NOQUOTA".toList) :=
      setDefaultQuota_long nameShort domainShort notSingle long
    rw [set, Except.ok.injEq] at stored
    refine ⟨"NOQUOTA".toList, stored, iff_of_false ?_ short⟩
    have unlimited : quotaMtos "NOQUOTA".toList = .ok (0, 0) := by decide
    rw [unlimited]
    intro same
    have positive : 0 < defaultBytes limits := by
      rw [length_defaultQuota_le_iff, FewDigits] at short
      rw [defaultBytes]
      omega
    have small := toNat_toInt_lt limits.defaultquota
    have bytes := congrArg BitVec.toNat (Prod.ext_iff.mp (Except.ok.inj same)).1
    rw [BitVec.toNat_ofNat, Nat.mod_eq_of_lt] at bytes
    · rw [← bytes] at positive
      exact Nat.lt_irrefl 0 positive
    · exact small.trans (by decide)

/-- Calls that go through, with the defaults of the domain. -/
def provider (size count : BitVec 32) : Surroundings where
  usersBigDir := false
  doubles := rationals
  rules := .unset
  uidgid := true
  known := false
  cdb := some fun _ => some ⟨"a.b".toList ++ nul :: nul :: nul :: "/d".toList ++ [nul], by decide⟩
  cache := AssignCache.initial
  limits := some { vdefaultLimits with defaultquota := size, defaultmaxmsgcount := count }
  enters := true
  userHash := .ok []
  stores := true
  found := (true, true)
  sets := 0
  logs := none

theorem vadduser_quota_messages :
    ∃ limits, (provider 0 5).limits = some limits ∧
      ∃ stored, some ['5', 'C'] = some stored ∧
        (quotaMtos stored = .ok (BitVec.ofNat 64 (defaultBytes limits),
            BitVec.ofNat 64 (defaultMessages limits)) ↔
          FewDigits limits) :=
  @vadduser_quota_iff (provider 0 5) ['j'] "a.b".toList [] [] (fun number : ℚ => number) none
    (some ['5', 'C']) exact_rationals (fun number _ => ⟨_, rfl⟩) (.inl rfl) rfl
    (by decide +kernel)

/-- A gigabyte and a hundred million messages, which are refused and leave the user
unlimited. -/
theorem vadduser_without_defaults :
    ¬∀ (surroundings : Surroundings) (value : surroundings.doubles.Value → ℚ)
      (username domain password gecos : List Char) (kept after : Kept),
      Exact surroundings.doubles value →
      (∀ number < 2 ^ 31, Representable value (number : Nat)) →
      (surroundings.found.1 = true ∨ surroundings.found.2 = true) → surroundings.sets = 0 →
      vadduser surroundings username domain password gecos kept = .ok (0, after) →
      ∃ limits, surroundings.limits = some limits ∧ ∃ stored, after = some stored ∧
        quotaMtos stored = .ok (BitVec.ofNat 64 (defaultBytes limits),
          BitVec.ofNat 64 (defaultMessages limits)) := by
  intro keeps
  have limited := keeps (provider 1000000000 100000000) _ ['j'] "a.b".toList [] [] none
    (some "NOQUOTA".toList) exact_rationals (fun number _ => ⟨_, rfl⟩) (.inl rfl) rfl
    (by decide +kernel)
  rcases limited with ⟨limits, found, stored, same, read⟩
  cases found
  cases same
  have unlimited : quotaMtos "NOQUOTA".toList = .ok (0, 0) := by decide
  rw [unlimited] at read
  have bytes := congrArg Prod.fst (Except.ok.inj read)
  revert bytes
  decide

end Stored

end Vpopmail.Vadduser

import Mathlib.Algebra.GroupWithZero.Nat
import Mathlib.Data.List.Basic

namespace Vpopmail

/-! The records and constants of `vpopmail.h` and `vauth.h` that several
components share. A C string is a list of characters. -/

instance lawfulBEq_text : LawfulBEq (List Char) := inferInstance

/-- The compile-time switches that the modelled functions test. -/
structure Build where
  clearPass : Bool
  usersBigDir : Bool
  deriving DecidableEq

/-- `struct vqpasswd`. Only the clear password can be a null pointer: `vgetent`
sets it in `CLEAR_PASS` builds alone. -/
structure Vqpasswd where
  pwName : List Char
  pwPasswd : List Char
  pwUid : BitVec 32
  pwGid : BitVec 32
  pwFlags : BitVec 32
  pwGecos : List Char
  pwDir : List Char
  pwShell : List Char
  pwClearPasswd : Option (List Char)
  deriving DecidableEq

/-! ## Sizes -/

def maxBuff : Nat := 300
def maxPwName : Nat := 32
def maxPwDomain : Nat := 96
def maxPwPass : Nat := 128
def maxPwGecos : Nat := 48
def maxPwClearPasswd : Nat := 128
def maxPwDir : Nat := 160
def maxPwQuota : Nat := 20

/-! ## Directory control -/

def maxDirLevels : Nat := 3
def maxUsersPerLevel : Nat := 100
def maxDirName : Nat := 300
def maxDirList : Nat := 62

/-- An array with one value for each level. -/
abbrev Levels := Fin 3 → BitVec 32

instance neZero_levels : NeZero 3 := ⟨by decide⟩

abbrev DirName := { cells : List Char // cells.length = maxDirName }

/-- `vdir_type`. -/
structure VdirType where
  levelCur : BitVec 32
  levelMax : BitVec 32
  levelStart : Levels
  levelEnd : Levels
  levelMod : Levels
  levelIndex : Levels
  curUsers : BitVec 64
  theDir : DirName

/-! ## Flags in `pw_gid` -/

def noPasswdChng : BitVec 32 := 0x01
def noPop : BitVec 32 := 0x02
def noWebmail : BitVec 32 := 0x04
def noImap : BitVec 32 := 0x08
def bounceMail : BitVec 32 := 0x10
def noRelay : BitVec 32 := 0x20
def noDialup : BitVec 32 := 0x40
def vUser0 : BitVec 32 := 0x080
def vUser1 : BitVec 32 := 0x100
def vUser2 : BitVec 32 := 0x200
def vUser3 : BitVec 32 := 0x400
def noSmtp : BitVec 32 := 0x800
def qaAdmin : BitVec 32 := 0x1000
def vOverride : BitVec 32 := 0x2000
def noSpamassassin : BitVec 32 := 0x4000
def deleteSpam : BitVec 32 := 0x8000
def saAdmin : BitVec 32 := 0x10000
def saExpert : BitVec 32 := 0x20000
def noMaildrop : BitVec 32 := 0x40000

/-- `flags & flag` as a condition. -/
def Has (flags flag : BitVec 32) : Prop := flags &&& flag ≠ 0

instance (flags flag : BitVec 32) : Decidable (Has flags flag) :=
  inferInstanceAs (Decidable (flags &&& flag ≠ 0))

/-! ## Return codes -/

/-- The `VA_` codes that the modelled functions return. -/
inductive VaCode
  | success
  | illegalUsername
  | usernameExists
  | badDir
  | userDoesNotExist
  | domainDoesNotExist
  | badUid
  | userNameTooLong
  | domainNameTooLong
  | passwdTooLong
  | gecosTooLong
  | quotaTooLong
  | dirTooLong
  | clearPasswdTooLong
  | nullPointer
  | cannotDeleteCatchall
  deriving DecidableEq

def VaCode.number : VaCode → Int
  | success => 0
  | illegalUsername => -1
  | usernameExists => -2
  | badDir => -3
  | userDoesNotExist => -10
  | domainDoesNotExist => -11
  | badUid => -22
  | userNameTooLong => -25
  | domainNameTooLong => -26
  | passwdTooLong => -27
  | gecosTooLong => -28
  | quotaTooLong => -29
  | dirTooLong => -30
  | clearPasswdTooLong => -31
  | nullPointer => -33
  | cannotDeleteCatchall => -55

end Vpopmail

import Mathlib.Data.List.Forall2
import Vpopmail.Vdelivermail

/-! # Deliveries to several destinations

A call of `deliver_mail` finds the message on descriptor 0 and `DeleteMail` unset, if no
earlier call has put a filter there or deleted its copy.
-/

namespace Vpopmail.Vdelivermail

open Vpopmail Text

/-! ## Plain copies -/

/-- `InHeaders` after a loop that takes no read for spam. -/
def scanReads (mailer : Mailer) (limits : Limits) (process : Process) :
    List (List Char) → (cells : List Char) → Option Bool
  | [], _ => some process.inHeaders
  | chunk :: chunks, cells =>
      let cells := chunk ++ cells.drop chunk.length
      match checksSpam mailer limits process with
      | .error _ => none
      | .ok false => scanReads mailer limits process chunks cells
      | .ok true =>
          match isSpam cells with
          | .ok (false, headers) =>
              scanReads mailer limits { process with inHeaders := headers } chunks cells
          | _ => none

/-- The variables after a copy for which no filter runs. -/
def plainCopy (mailer : Mailer) (answers : Answers) (stale email text : List Char)
    (process : Process) : Option Process :=
  let limits := mailer.limits process.theDomain
  let process := findAccount mailer email process
  if runsSpamc mailer answers limits process || runsMaildrop mailer limits process then none
  else
    (scanReads mailer limits process (answers.reads text) stale).map fun headers =>
      { process with inHeaders := headers }

section Copies

variable {mailer : Mailer} {answers : Answers} {process after : Process}
  {stale email text : List Char}

/-- What a copy does not touch. -/
structure SameFrame (before after : Process) : Prop where
  deleteMail : after.deleteMail = before.deleteMail
  isLocal : after.isLocal = before.isLocal
  input : after.input = before.input
  deliveries : after.deliveries = before.deliveries

theorem SameFrame.trans {middle : Process} (first : SameFrame process middle)
    (second : SameFrame middle after) : SameFrame process after := by
  constructor
  · exact second.deleteMail.trans first.deleteMail
  · exact second.isLocal.trans first.isLocal
  · exact second.input.trans first.input
  · exact second.deliveries.trans first.deliveries

end Copies

/-! ## Lines -/

/-- The destination takes what it is given. -/
def accepts (address : List Char) (answers : Answers) : Bool :=
  match lineOf address with
  | .comment => true
  | .command => !answers.looping && answers.exitCode = 0
  | .maildir =>
      !answers.looping && address.getLast? = some '/' && !answers.overQuota &&
        !answers.overDomain && answers.mailed.opens && answers.mailed.links
  | .forward => !answers.looping && answers.forks && answers.exitCode = 0

/-- The state in which a call looks at the kind of its line. -/
def arrived (mailer : Mailer) (answers : Answers) (process : Process) : Process :=
  let process := scanHeaders mailer answers process
  { process with input := process.input.rewind }

/-- The variables when the message is copied, if the copy of a quota warning is plain. -/
def plainWarning (mailer : Mailer) (answers : Answers) (address : List Char) (near : Bool)
    (process : Process) : Option Process :=
  match answers.warning with
  | none => some { process with isLocal := true }
  | some text =>
      if near && answers.warned.opens then
        plainCopy mailer answers answers.warned.stale (mailer.maildirToEmail address) text
          { process with isLocal := true }
      else some { process with isLocal := true }

/-- A line of a Maildir for which `deliver_mail` makes only plain copies, of a quota warning
and of the message. -/
def keeps (mailer : Mailer) (answers : Answers) (address : List Char) (process : Process) :
    Bool :=
  if lineOf address ≠ .maildir then true
  else
    let process := arrived mailer answers process
    let (looked, checked) := quotaLookups mailer answers address process
    !(mailer.switches.makeSeekable && process.messageSize = 0) &&
      ((plainWarning mailer answers address (checked && answers.nearQuota) looked).bind
        (plainCopy mailer answers answers.mailed.stale (mailer.maildirToEmail address)
          mailer.message)).isSome

/-- What every call relies on. -/
structure Ready (mailer : Mailer) (process : Process) : Prop where
  deleteMail : process.deleteMail = false
  input : ∃ unread, process.input = .file mailer.message unread

/-- The variables when `deliver_mail` makes the headers for a Maildir. -/
def atHeaders (mailer : Mailer) (answers : Answers) (address : List Char) (process : Process) :
    Except Ended Process :=
  let (looked, checked) := quotaLookups mailer answers address (arrived mailer answers process)
  if checked && answers.nearQuota then deliverQuotaWarning mailer answers address looked
  else .ok looked

/-- What the line of a Maildir is to get: the message, behind the headers for the user and the
domain that are in force at the call. -/
def due (mailer : Mailer) (answers : Answers) (address : List Char) (process : Process) :
    List Delivery :=
  if lineOf address = .maildir then
    match atHeaders mailer answers address process with
    | .ok state =>
        [⟨.maildir, address, maildirHeaders mailer address state.theUser state.theDomain,
          mailer.message⟩]
    | .error _ => []
  else []

section Calls

variable {mailer : Mailer} {answers : Answers} {process after : Process} {address : List Char}

/-- One call serves its line. -/
def Serves (mailer : Mailer) (answers : Answers) (address : List Char) (process : Process)
    (result : Except Ended Process) : Prop :=
  ∃ after new, result = .ok after ∧ Ready mailer after ∧
    after.deliveries = process.deliveries ++ new ∧
    new.filter (fun delivery => delivery.kind = .maildir) = due mailer answers address process

end Calls

/-! ## All lines -/

/-- Every call for a Maildir makes plain copies only. -/
def undisturbed (mailer : Mailer) : List (List Char × Answers) → Process → Bool
  | [], _ => true
  | (address, answers) :: lines, process =>
      keeps mailer answers address process &&
        match deliverMail mailer answers address process with
        | .ok after => undisturbed mailer lines after
        | .error _ => true

section Lines

variable {mailer : Mailer} {lines : List (List Char × Answers)} {process : Process}

end Lines

/-! ## Builds without filters -/

section Unfiltered

variable {mailer : Mailer}

theorem plainCopy_unfiltered (spamassassin : mailer.switches.spamassassin = false)
    (maildrop : mailer.switches.maildrop = false) (answers : Answers)
    (stale email text : List Char) (process : Process) :
    (plainCopy mailer answers stale email text process).isSome = true := by
  have scanned : ∀ (limits : Limits) (process : Process) (chunks : List (List Char))
      (stale : List Char), scanReads mailer limits process chunks stale =
        some process.inHeaders := by
    intro limits process chunks
    induction chunks with
    | nil => exact fun _ => rfl
    | cons chunk chunks induction =>
        intro stale
        have unchecked : checksSpam mailer limits process = .ok false := by
          rw [checksSpam, spamassassin]
          rfl
        rw [scanReads, unchecked]
        exact induction _
  simp only [plainCopy, runsSpamc, runsMaildrop, spamassassin, maildrop, Bool.false_and,
    Bool.or_false, Bool.false_eq_true, if_false, scanned, Option.map_some, Option.isSome_some]

theorem undisturbed_unfiltered (spamassassin : mailer.switches.spamassassin = false)
    (maildrop : mailer.switches.maildrop = false)
    (makeSeekable : mailer.switches.makeSeekable = false) (lines : List (List Char × Answers))
    (process : Process) : undisturbed mailer lines process = true := by
  have plain := plainCopy_unfiltered spamassassin maildrop
  induction lines generalizing process with
  | nil => rfl
  | cons line lines induction =>
      rcases line with ⟨address, answers⟩
      have kept : keeps mailer answers address process = true := by
        rw [keeps]
        split
        · rfl
        · dsimp only
          rw [makeSeekable, Bool.false_and, Bool.not_false, Bool.true_and]
          generalize quotaLookups mailer answers address (arrived mailer answers process) = looked
          rcases looked with ⟨looked, checked⟩
          have warned : ∃ middle, plainWarning mailer answers address
              (checked && answers.nearQuota) looked = some middle := by
            rw [plainWarning]
            split
            · exact ⟨_, rfl⟩
            · split
              · exact Option.isSome_iff_exists.mp (plain _ _ _ _ _)
              · exact ⟨_, rfl⟩
          rcases warned with ⟨middle, warned⟩
          rw [warned, Option.bind_some]
          exact plain _ _ _ _ _
      rw [undisturbed, kept, Bool.true_and]
      split
      · exact induction _
      · rfl

end Unfiltered

/-! ## Two Maildirs and a forward -/

section Sample

def message : List Char := "Subject: a\n\nb\n".toList

def ann : List Char := "/v/ann/Maildir/".toList

def bob : List Char := "/v/bob/Maildir/".toList

def started : Process where
  deleteMail := false
  inHeaders := true
  isLocal := true
  vpw := false
  pwGid := 0
  theUser := "all".toList
  theDomain := "x.org".toList
  messageSize := 14
  input := .file message []
  deliveries := []

end Sample

end Vpopmail.Vdelivermail

/-
Bans of users.

A ban is two things: the user is archived, and a row of its own says until when and how
often there was one before.  Enough reports against a user make an automatic ban, which
lasts twice as long each time; an administrator can ban for some days or for ever.  A
release makes the user active again and the row inactive, whether an administrator asks
for it or the time is up.

Users and administrators archive accounts for reasons of their own, with the same status.
Which of them it was is nowhere stored; here it is kept with the system, for the
statements about it.

Every statement on the database may fail, with the text of its error.
-/
import Memos.Store.Spaces
import Memos.Access.Memo
import Memos.Lib.Runs
import Mathlib.Data.List.AList
import Mathlib.Data.List.Sort

namespace Memos.Api.Bans

open Store Access

/-! ### Bans -/

inductive BanSource where
  | AUTO
  | MANUAL
deriving DecidableEq

structure ModerationUserBan where
  userID : Int
  createdTs : Int
  updatedTs : Int
  /-- Zero means that the ban does not end. -/
  expiresTs : Int
  strikeCount : Int
  source : BanSource
  active : Bool
deriving DecidableEq

def maxModerationBanDays : Int := 36500

/-- The loop: days are doubled for every strike, up to the maximum. -/
def doubledDays : Nat → Int → Int
  | 0, days => days
  | strikes + 1, days =>
      if days < maxModerationBanDays then
        doubledDays strikes (if maxModerationBanDays / 2 < days then maxModerationBanDays else days * 2)
      else days

def scaledAutomaticBanDays (initialDays strikeCount : Int) : Int :=
  let days := doubledDays (strikeCount - 1).toNat (if initialDays < 1 then 30 else initialDays)
  if maxModerationBanDays < days then maxModerationBanDays else days

def daySec : Int := 86400

/-- An `int32` after an increment. -/
def nextStrike (strikeCount : Int) : Int := (strikeCount + 1).bmod 4294967296

def banTerms (existing : Option ModerationUserBan) (now : Int) (days : Option Int)
    (source : BanSource) : Int × Int :=
  let strikeCount := (existing.map ModerationUserBan.strikeCount).getD 0
  match source with
  | .AUTO =>
      let strikeCount := nextStrike strikeCount
      (strikeCount, now + scaledAutomaticBanDays (days.getD 30) strikeCount * daySec)
  | .MANUAL => (strikeCount, (days.map fun days => now + days * daySec).getD 0)

/-! ### The tables -/

structure Accounts where
  state : State
  bans : AList fun _ : Int => ModerationUserBan

namespace Accounts

def status (a : Accounts) (userID : Int) : Option RowStatus :=
  (a.state.users.find? userID).map UserRow.rowStatus

def archived (a : Accounts) (userID : Int) : Bool := a.status userID = some .Archived

/-- There is a ban, whether or not its time is up. -/
def banned (a : Accounts) (userID : Int) : Bool :=
  (a.bans.lookup userID).any ModerationUserBan.active

end Accounts

def rowStatusUpdate (id : Int) (rowStatus : RowStatus) : UpdateUser :=
  { id, updatedTs := none, rowStatus := some rowStatus, username := none, role := none,
    email := none, nickname := none, avatarURL := none, passwordHash := none, description := none }

/-- `UpdateUser`, which may fail with the text of an error. -/
def setRowStatus (a : Accounts) (fault : Option String) (id : Int) (rowStatus : RowStatus) :
    Except String Accounts :=
  match fault with
  | some e => .error e
  | none =>
      match updateUser a.state (rowStatusUpdate id rowStatus) with
      | .ok (state, _) => .ok { a with state }
      | .error e => .error e.message

/-- `INSERT … ON CONFLICT DO UPDATE`. -/
def upsertModerationUserBan (a : Accounts) (now userID expiresTs strikeCount : Int)
    (source : BanSource) : Accounts :=
  { a with
    bans := a.bans.insert userID
      { userID, createdTs := ((a.bans.lookup userID).map ModerationUserBan.createdTs).getD now,
        updatedTs := now, expiresTs, strikeCount, source, active := true } }

def deactivateModerationUserBan (a : Accounts) (now userID : Int) : Accounts :=
  match a.bans.lookup userID with
  | some ban => { a with bans := a.bans.insert userID { ban with active := false, updatedTs := now } }
  | none => a

def listExpiredModerationUserBanIDs (a : Accounts) (beforeTs : Int) (limit : Nat) : List Int :=
  ((a.bans.entries.filter fun row =>
      row.2.active && decide (0 < row.2.expiresTs) && decide (row.2.expiresTs ≤ beforeTs)).insertionSort
    fun x y => x.2.expiresTs ≤ y.2.expiresTs).map Sigma.fst |>.take limit

/-! ### The service -/

structure BanFaults where
  load : Option String := none
  archive : Option String := none
  upsert : Option String := none
  rollback : Option String := none
  quarantine : Option String := none

def banModerationUser (a : Accounts) (now : Int) (user : UserRow) (days : Option Int)
    (source : BanSource) (faults : BanFaults) : Accounts × Except String (Option ModerationUserBan) :=
  match faults.load with
  | some e => (a, .error ("failed to load user ban: " ++ e))
  | none =>
      let (strikeCount, expiresTs) := banTerms (a.bans.lookup user.id) now days source
      match setRowStatus a faults.archive user.id .Archived with
      | .error e => (a, .error ("failed to archive user: " ++ e))
      | .ok archived =>
          match faults.upsert with
          | some e =>
              -- A user who was archived before is left so.
              let back := if user.rowStatus ≠ .Archived then
                  (setRowStatus archived faults.rollback user.id .Normal).toOption.getD archived
                else archived
              (back, .error ("failed to save user ban: " ++ e))
          | none =>
              let banned := upsertModerationUserBan archived now user.id expiresTs strikeCount source
              match faults.quarantine with
              | some e => (banned, .error ("failed to save user quarantine: " ++ e))
              | none => (banned, .ok (banned.bans.lookup user.id))

structure RestoreFaults where
  restore : Option String := none
  deactivate : Option String := none
  clear : Option String := none

def restoreModerationUser (a : Accounts) (now userID : Int) (faults : RestoreFaults) :
    Accounts × Except String Unit :=
  match setRowStatus a faults.restore userID .Normal with
  | .error e => (a, .error ("failed to restore user: " ++ e))
  | .ok restored =>
      match faults.deactivate with
      | some e => (restored, .error ("failed to deactivate user ban: " ++ e))
      | none =>
          let released := deactivateModerationUserBan restored now userID
          match faults.clear with
          | some e => (released, .error ("failed to clear user moderation state: " ++ e))
          | none => (released, .ok ())

/-- One round of the loop of `ReleaseExpiredUserBans`, which goes on in spite of errors. -/
def releaseExpiredUserBans (a : Accounts) (now : Int) (faults : Int → RestoreFaults) : Accounts :=
  (listExpiredModerationUserBanIDs a now 100).foldl
    (fun a userID => (restoreModerationUser a now userID (faults userID)).1) a

/-- The loop of `ReleaseExpiredUserBans`, which reads the clock again in every round.  None when
it is not done after the rounds. -/
def releaseLoop (clock : Nat → Int) (faults : Int → RestoreFaults) :
    Nat → Nat → Accounts → Option Accounts
  | 0, _, _ => none
  | rounds + 1, n, a =>
      let ids := listExpiredModerationUserBanIDs a (clock n) 100
      if ids = [] then some a
      else
        let a := releaseExpiredUserBans a (clock n) faults
        if ids.length < 100 then some a else releaseLoop clock faults rounds (n + 1) a

/-- The second half of `applyAutomaticModeration`, for a user. -/
def automaticBan (a : Accounts) (userID now count threshold initialDays : Int)
    (faults : BanFaults) : Accounts :=
  match getUser a.state userID with
  | none => a
  | some user =>
      if count < threshold || user.role = .Admin then a
      else (banModerationUser a now user (some initialDays) .AUTO faults).1

def manualBan (a : Accounts) (adminID userID now : Int) (days : Option Int) (faults : BanFaults) :
    Accounts :=
  match getUser a.state userID with
  | none => a
  | some user =>
      if user.id = adminID then a
      else if days.any fun days => days < 1 || maxModerationBanDays < days then a
      else (banModerationUser a now user days .MANUAL faults).1

/-! ### Histories -/

inductive ArchivedBy where
  /-- The owner of the account or an administrator, and not by a ban. -/
  | account
  | ban
deriving DecidableEq

structure System where
  accounts : Accounts
  archivedBy : Int → Option ArchivedBy

inductive Action where
  | autoBan (userID now count threshold initialDays : Int) (faults : BanFaults)
  | manualBan (adminID userID now : Int) (days : Option Int) (faults : BanFaults)
  /-- An administrator releases the user, who may be asked for by name or by the entry in
  the list of quarantined users. -/
  | release (userID now : Int) (faults : RestoreFaults)
  | releaseExpired (now : Int) (faults : Int → RestoreFaults)
  | archive (userID : Int)
  | reactivate (userID : Int)
  /-- Something else happens that leaves the users alone. -/
  | elsewhere (state : State)

def Action.apply (a : Accounts) : Action → Accounts
  | .autoBan userID now count threshold initialDays faults =>
      automaticBan a userID now count threshold initialDays faults
  | .manualBan adminID userID now days faults => Bans.manualBan a adminID userID now days faults
  | .release userID now faults => (restoreModerationUser a now userID faults).1
  | .releaseExpired now faults => releaseExpiredUserBans a now faults
  | .archive userID => (setRowStatus a none userID .Archived).toOption.getD a
  | .reactivate userID => (setRowStatus a none userID .Normal).toOption.getD a
  | .elsewhere state => { a with state := { state with users := a.state.users } }

def Action.culprit : Action → ArchivedBy
  | .autoBan _ _ _ _ _ _ | .manualBan _ _ _ _ _ => .ban
  | _ => .account

def noted (before after : Accounts) (culprit : ArchivedBy) (old : Int → Option ArchivedBy) :
    Int → Option ArchivedBy := fun id =>
  if after.archived id then if before.archived id then old id else some culprit else none

def step (s : System) (a : Action) : Option System :=
  let accounts := a.apply s.accounts
  some { accounts, archivedBy := noted s.accounts accounts a.culprit s.archivedBy }

end Memos.Api.Bans

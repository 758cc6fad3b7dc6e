/-
When a ban is only ever a ban.

Two things are lost when a ban is placed.  The row has one end, and a new one is written
over the old, so an automatic ban shortens the ban in force if that one ends later or
never.  And the user has one status, so a ban of a user who is archived already looks as
if it had archived them, and its end makes them active.

The second is an invariant: if no ban is placed on a user whom somebody else has archived,
and nobody archives a banned user, then the record names the ban for every banned user
that is archived, and a release undoes what the ban has done and nothing else.
-/
import Memos.Api.UserBan
import Memos.Proofs.Store.Spaces
import Mathlib.Tactic.Linarith

namespace Memos.Api.Bans

open Store Access Runs

/-! ### Statuses -/

section Status

variable {a a' : Accounts} {fault : Option String} {id : Int} {rowStatus : RowStatus}

/-- A user's status after it is set: only theirs is another, and then it is the new one. -/
theorem setRowStatus_spec (h : setRowStatus a fault id rowStatus = .ok a') :
    a'.bans = a.bans ∧ ∀ other, a'.status other
      = (a.status other).map fun old => if other = id then rowStatus else old := by
  unfold setRowStatus at h
  cases fault with
  | some e => cases h
  | none =>
      dsimp only at h
      split at h
      · rename_i state user updated
        injection h with h
        rw [← h]
        refine ⟨rfl, fun other => ?_⟩
        show (state.users.find? other).map _ = ((a.state.users.find? other).map _).map _
        rw [find?_updateUser updated other, Option.map_map, Option.map_map]
        refine Option.map_congr fun u _ => ?_
        show UserRow.rowStatus (if other = id then _ else u) = if other = id then _ else u.rowStatus
        split
        · rfl
        · rfl
      · cases h

theorem archived_other (h : setRowStatus a fault id rowStatus = .ok a') {other : Int}
    (apart : other ≠ id) : a'.archived other = a.archived other := by
  unfold Accounts.archived
  rw [(setRowStatus_spec h).2 other]
  simp only [if_neg apart, Option.map_id']

theorem not_archived_of_normal (h : setRowStatus a fault id .Normal = .ok a') :
    a'.archived id = false := by
  unfold Accounts.archived
  rw [(setRowStatus_spec h).2 id]
  cases a.status id with
  | none => rfl
  | some old => simp

theorem archived_of_archived (h : setRowStatus a fault id .Archived = .ok a')
    (before : a.archived id = true) : a'.archived id = true := by
  unfold Accounts.archived at before ⊢
  rw [(setRowStatus_spec h).2 id, of_decide_eq_true before]
  simp

theorem banned_same (same : a'.bans = a.bans) (id : Int) : a'.banned id = a.banned id := by
  unfold Accounts.banned
  rw [same]

end Status

/-! ### What a ban and a release may do -/

/-- Nothing about other users is another than before. -/
structure Apart (id : Int) (a a' : Accounts) : Prop where
  archived : ∀ other, other ≠ id → a'.archived other = a.archived other
  bans : ∀ other, other ≠ id → a'.bans.lookup other = a.bans.lookup other

/-- Users are made active and bans inactive, and nothing else happens. -/
structure Released (a a' : Accounts) : Prop where
  archived : ∀ id, a'.archived id = true → a.archived id = true
  banned : ∀ id, a'.banned id = true → a.banned id = true

theorem Released.refl (a : Accounts) : Released a a := ⟨fun _ h => h, fun _ h => h⟩

theorem Released.trans {a b c : Accounts} (first : Released a b) (second : Released b c) :
    Released a c :=
  ⟨fun id h => first.archived id (second.archived id h),
    fun id h => first.banned id (second.banned id h)⟩

theorem released_of_normal {a a' : Accounts} {fault : Option String} {id : Int}
    (h : setRowStatus a fault id .Normal = .ok a') : Released a a' := by
  refine ⟨fun other archived => ?_, fun other banned => ?_⟩
  · by_cases same : other = id
    · rw [same, not_archived_of_normal h] at archived
      cases archived
    · rw [← archived_other h same]
      exact archived
  · rw [← banned_same (setRowStatus_spec h).1]
    exact banned

section Restore

variable (a : Accounts) (now id : Int)

theorem released_deactivate : Released a (deactivateModerationUserBan a now id) := by
  unfold deactivateModerationUserBan
  split
  · rename_i ban stored
    refine ⟨fun _ archived => archived, fun other banned => ?_⟩
    by_cases same : other = id
    · unfold Accounts.banned at banned
      rw [same, AList.lookup_insert] at banned
      cases banned
    · unfold Accounts.banned at banned ⊢
      rw [AList.lookup_insert_ne same] at banned
      exact banned
  · exact .refl a

theorem apart_deactivate : Apart id a (deactivateModerationUserBan a now id) := by
  unfold deactivateModerationUserBan
  split
  · exact ⟨fun _ _ => rfl, fun other apart => AList.lookup_insert_ne apart⟩
  · exact ⟨fun _ _ => rfl, fun _ _ => rfl⟩

theorem restoreModerationUser_spec (faults : RestoreFaults) :
    Released a (restoreModerationUser a now id faults).1 ∧
      Apart id a (restoreModerationUser a now id faults).1 := by
  unfold restoreModerationUser
  cases restored : setRowStatus a faults.restore id .Normal with
  | error e => exact ⟨.refl a, fun _ _ => rfl, fun _ _ => rfl⟩
  | ok b =>
      have released := released_of_normal restored
      have apart : Apart id a b := by
        refine ⟨fun other apart => archived_other restored apart, fun other _ => ?_⟩
        rw [(setRowStatus_spec restored).1]
      have both : Released a (deactivateModerationUserBan b now id) ∧
          Apart id a (deactivateModerationUserBan b now id) := by
        refine ⟨released.trans (released_deactivate b now id), fun other h => ?_, fun other h => ?_⟩
        · exact ((apart_deactivate b now id).archived other h).trans (apart.archived other h)
        · exact ((apart_deactivate b now id).bans other h).trans (apart.bans other h)
      cases faults.deactivate with
      | some e => exact ⟨released, apart⟩
      | none =>
          cases faults.clear with
          | some e => exact both
          | none => exact both

theorem releaseExpired_spec (faults : Int → RestoreFaults) (ids : List Int) :
    Released a (ids.foldl (fun a id => (restoreModerationUser a now id (faults id)).1) a) ∧
      ∀ other, other ∉ ids →
        (ids.foldl (fun a id => (restoreModerationUser a now id (faults id)).1) a).archived other
          = a.archived other := by
  induction ids generalizing a with
  | nil => exact ⟨.refl a, fun _ _ => rfl⟩
  | cons id ids ih =>
      obtain ⟨released, apart⟩ := restoreModerationUser_spec a now id (faults id)
      obtain ⟨rest, others⟩ := ih (restoreModerationUser a now id (faults id)).1
      refine ⟨released.trans rest, fun other out => ?_⟩
      rw [List.mem_cons, not_or] at out
      exact (others other out.2).trans (apart.archived other out.1)

end Restore

theorem banned_of_expired {a : Accounts} {before id : Int} {limit : Nat}
    (listed : id ∈ listExpiredModerationUserBanIDs a before limit) : a.banned id = true := by
  obtain ⟨row, found, rfl⟩ := List.mem_map.mp (List.mem_of_mem_take listed)
  rw [List.mem_insertionSort, List.mem_filter, Bool.and_eq_true, Bool.and_eq_true] at found
  obtain ⟨stored, ⟨active, -⟩, -⟩ := found
  unfold Accounts.banned
  rw [AList.mem_lookup_iff.mpr stored]
  exact active

/-! ### Placing a ban -/

/-- What a ban may change: of the user it is for, and so that it is not less than before. -/
structure Placed (a a' : Accounts) (id : Int) (terms : Int × Int) : Prop where
  apart : Apart id a a'
  archived : a.archived id = true → a'.archived id = true
  ban : a'.bans.lookup id = a.bans.lookup id ∨ ∃ ban, a'.bans.lookup id = some ban ∧
    ban.active = true ∧ ban.strikeCount = terms.1 ∧ ban.expiresTs = terms.2

theorem Placed.refl (a : Accounts) (id : Int) (terms : Int × Int) : Placed a a id terms :=
  ⟨⟨fun _ _ => rfl, fun _ _ => rfl⟩, fun archived => archived, .inl rfl⟩

theorem banModerationUser_spec (a : Accounts) (now : Int) {user : UserRow} (days : Option Int)
    (source : BanSource) (faults : BanFaults) (stored : getUser a.state user.id = some user) :
    Placed a (banModerationUser a now user days source faults).1 user.id
      (banTerms (a.bans.lookup user.id) now days source) := by
  unfold banModerationUser
  cases faults.load with
  | some e => exact .refl a user.id _
  | none =>
      cases set : setRowStatus a faults.archive user.id .Archived with
      | error e => exact .refl a user.id _
      | ok b =>
          have bans : b.bans = a.bans := (setRowStatus_spec set).1
          have apart : Apart user.id a b :=
            ⟨fun other apart => archived_other set apart, fun other _ => by rw [bans]⟩
          have archived : a.archived user.id = true → b.archived user.id = true :=
            archived_of_archived set
          cases faults.upsert with
          | some e =>
              -- The way back is taken only for a user who was active.
              by_cases active : user.rowStatus ≠ .Archived
              · have was : a.archived user.id = false := by
                  unfold Accounts.archived Accounts.status
                  rw [show a.state.users.find? user.id = some user from stored]
                  simpa using active
                show Placed a (if user.rowStatus ≠ .Archived then _ else b) _ _
                rw [if_pos active]
                cases back : setRowStatus b faults.rollback user.id .Normal with
                | error e => exact ⟨apart, archived, .inl (by rw [← bans]; rfl)⟩
                | ok c =>
                    have same : c.bans = a.bans := (setRowStatus_spec back).1.trans bans
                    refine ⟨⟨fun other h => ?_, fun other _ => ?_⟩, fun h => ?_, .inl ?_⟩
                    · exact (archived_other back h).trans (apart.archived other h)
                    · exact congrArg (AList.lookup other) same
                    · rw [was] at h
                      cases h
                    · exact congrArg (AList.lookup user.id) same
              · show Placed a (if user.rowStatus ≠ .Archived then _ else b) _ _
                rw [if_neg active]
                exact ⟨apart, archived, .inl (by rw [bans])⟩
          | none =>
              have placed : Placed a (upsertModerationUserBan b now user.id
                  (banTerms (a.bans.lookup user.id) now days source).2
                  (banTerms (a.bans.lookup user.id) now days source).1 source) user.id
                  (banTerms (a.bans.lookup user.id) now days source) := by
                refine ⟨⟨apart.archived, fun other h => ?_⟩, archived,
                  .inr ⟨_, AList.lookup_insert _, rfl, rfl, rfl⟩⟩
                rw [← apart.bans other h]
                exact AList.lookup_insert_ne h
              cases faults.quarantine with
              | some e => exact placed
              | none => exact placed

/-! ### How long -/

theorem doubledDays_of_le {days : Int} (strikes : Nat) (most : maxModerationBanDays ≤ days) :
    doubledDays strikes days = days := by
  cases strikes with
  | zero => rfl
  | succ strikes =>
      unfold doubledDays
      exact if_neg (Int.not_lt.mpr most)

/-- The loop stops early, and at the same number of days as if it went on. -/
theorem min_doubledDays {days : Int} (strikes : Nat) (positive : 1 ≤ days) :
    min maxModerationBanDays (doubledDays strikes days)
      = min maxModerationBanDays (days * 2 ^ strikes) := by
  induction strikes generalizing days with
  | zero => rw [doubledDays, pow_zero, mul_one]
  | succ strikes ih =>
      have power : (1 : Int) ≤ 2 ^ strikes := one_le_pow₀ one_le_two
      unfold doubledDays
      by_cases less : days < maxModerationBanDays
      · rw [if_pos less]
        by_cases half : maxModerationBanDays / 2 < days
        · rw [if_pos half, doubledDays_of_le strikes (le_refl _), min_self, pow_succ]
          have most : maxModerationBanDays ≤ days * (2 ^ strikes * 2) := by
            have twice : maxModerationBanDays ≤ days * 2 := by
              unfold maxModerationBanDays at half ⊢
              omega
            nlinarith
          exact (min_eq_left most).symm
        · rw [if_neg half, ih (by omega), pow_succ', mul_assoc]
      · rw [if_neg less]
        have most := Int.not_lt.mp less
        have further : maxModerationBanDays ≤ days * 2 ^ (strikes + 1) := by
          rw [pow_succ]
          nlinarith
        rw [min_eq_left most, min_eq_left further]

/-- The days of an automatic ban, for the first time and doubled every time after it. -/
def automaticDays (initialDays strikeCount : Int) : Int :=
  min maxModerationBanDays
    ((if initialDays < 1 then 30 else initialDays) * 2 ^ (strikeCount - 1).toNat)

theorem scaledAutomaticBanDays_eq (initialDays strikeCount : Int) :
    scaledAutomaticBanDays initialDays strikeCount = automaticDays initialDays strikeCount := by
  unfold scaledAutomaticBanDays automaticDays
  have positive : 1 ≤ if initialDays < 1 then 30 else initialDays := by
    split
    · decide
    · omega
  rw [← min_doubledDays _ positive]
  generalize doubledDays _ _ = days
  show (if maxModerationBanDays < days then maxModerationBanDays else days) = _
  split
  · exact (min_eq_left (by omega)).symm
  · exact (min_eq_right (by omega)).symm

/-! ### The condition -/

/-- The action places a ban on somebody, unless a statement fails. -/
def Action.bans (a : Accounts) : Action → Bool
  | .autoBan userID _ count threshold _ _ =>
      (getUser a.state userID).any fun user => !(count < threshold || user.role = .Admin)
  | .manualBan adminID userID _ days _ =>
      (getUser a.state userID).any fun user =>
        !(user.id = adminID || days.any fun days => days < 1 || maxModerationBanDays < days)
  | _ => false

/-- A ban has an end, and one that is placed now does not end before it. -/
def ModerationUserBan.endsBy (ban : ModerationUserBan) (now initialDays : Int) : Bool :=
  ban.expiresTs ≠ 0
    && ban.expiresTs ≤ now + automaticDays initialDays (nextStrike ban.strikeCount) * daySec

def careful (s : System) : Action → Bool
  | .autoBan userID now count threshold initialDays faults =>
      !(Action.autoBan userID now count threshold initialDays faults).bans s.accounts
        || s.archivedBy userID ≠ some .account
          && (s.accounts.bans.lookup userID).all fun ban => !ban.active || ban.endsBy now initialDays
  | .manualBan adminID userID now days faults =>
      !(Action.manualBan adminID userID now days faults).bans s.accounts
        || s.archivedBy userID ≠ some .account
  | .release userID _ _ => s.accounts.banned userID || s.archivedBy userID ≠ some .account
  | .archive userID => !s.accounts.banned userID || s.accounts.archived userID
  | .releaseExpired _ _ | .reactivate _ | .elsewhere _ => true

/-- No automatic ban is placed on a user whose ban would end later or never.  No ban at all
is placed on a user whom somebody has archived otherwise, nobody is archived who is banned
and active, and a user who is released is one with a ban, or not archived otherwise. -/
def Careful (s : System) (a : Action) : Prop := careful s a = true

instance (s : System) (a : Action) : Decidable (Careful s a) :=
  inferInstanceAs (Decidable (_ = true))

/-! ### One action -/

theorem id_of_getUser {state : State} {id : Int} {user : UserRow}
    (found : getUser state id = some user) : user.id = id :=
  (Keyed.Table.find?_eq_some.mp found).2

section Bans

variable (a : Accounts) (id now : Int) (faults : BanFaults)

theorem automaticBan_spec (count threshold initialDays : Int) :
    Placed a (automaticBan a id now count threshold initialDays faults) id
        (banTerms (a.bans.lookup id) now (some initialDays) .AUTO) ∧
      (Action.bans a (.autoBan id now count threshold initialDays faults) = false →
        automaticBan a id now count threshold initialDays faults = a) := by
  unfold automaticBan Action.bans
  dsimp only
  cases found : getUser a.state id with
  | none => exact ⟨.refl a id _, fun _ => rfl⟩
  | some user =>
      have same := id_of_getUser found
      rw [← same] at found ⊢
      rw [Option.any_some]
      dsimp only
      cases refused : decide (count < threshold) || decide (user.role = .Admin) with
      | true => exact ⟨.refl a _ _, fun _ => rfl⟩
      | false =>
          exact ⟨banModerationUser_spec a now (some initialDays) .AUTO faults found,
            fun h => nomatch h⟩

theorem manualBan_spec (adminID : Int) (days : Option Int) :
    Placed a (manualBan a adminID id now days faults) id
        (banTerms (a.bans.lookup id) now days .MANUAL) ∧
      (Action.bans a (.manualBan adminID id now days faults) = false →
        manualBan a adminID id now days faults = a) := by
  unfold manualBan Action.bans
  dsimp only
  cases found : getUser a.state id with
  | none => exact ⟨.refl a id _, fun _ => rfl⟩
  | some user =>
      have same := id_of_getUser found
      rw [← same] at found ⊢
      rw [Option.any_some]
      dsimp only
      by_cases self : user.id = adminID
      · rw [if_pos self]
        exact ⟨.refl a _ _, fun _ => rfl⟩
      · rw [if_neg self, decide_eq_false self, Bool.false_or]
        cases refused : days.any fun days => days < 1 || maxModerationBanDays < days with
        | true => exact ⟨.refl a _ _, fun _ => rfl⟩
        | false => exact ⟨banModerationUser_spec a now days .MANUAL faults found, fun h => nomatch h⟩

end Bans

/-- The one ban lasts as long as the other, or longer. -/
def ModerationUserBan.Outlasts (ban old : ModerationUserBan) : Prop :=
  ban.expiresTs = 0 ∨ old.expiresTs ≠ 0 ∧ old.expiresTs ≤ ban.expiresTs

/-- A careful automatic ban leaves every ban at least as long as it is. -/
theorem outlasts_of_careful {s : System} {userID now count threshold initialDays : Int}
    {faults : BanFaults}
    (ok : Careful s (.autoBan userID now count threshold initialDays faults)) {id : Int}
    {ban : ModerationUserBan} (stored : s.accounts.bans.lookup id = some ban)
    (active : ban.active = true) :
    ∃ after, (automaticBan s.accounts userID now count threshold initialDays faults).bans.lookup id
      = some after ∧ after.active = true ∧ after.Outlasts ban := by
  have unchanged : ban.Outlasts ban := by
    by_cases ends : ban.expiresTs = 0
    · exact .inl ends
    · exact .inr ⟨ends, le_refl _⟩
  obtain ⟨placed, refused⟩ :=
    automaticBan_spec s.accounts userID now faults count threshold initialDays
  by_cases same : id = userID
  · subst same
    rcases placed.ban with kept | ⟨after, now, isActive, -, ends⟩
    · exact ⟨ban, kept.trans stored, active, unchanged⟩
    · unfold Careful careful at ok
      rw [Bool.or_eq_true, Bool.and_eq_true] at ok
      rcases ok with refuses | ⟨-, room⟩
      · rw [refused (Bool.not_eq_true' _ ▸ refuses)]
        exact ⟨ban, stored, active, unchanged⟩
      · rw [stored, Option.all_some, active, Bool.not_true, Bool.false_or] at room
        unfold ModerationUserBan.endsBy at room
        rw [Bool.and_eq_true, decide_eq_true_eq, decide_eq_true_eq] at room
        refine ⟨after, now, isActive, .inr ⟨room.1, ?_⟩⟩
        rw [ends, stored]
        unfold banTerms
        dsimp only [Option.map_some, Option.getD_some]
        rw [scaledAutomaticBanDays_eq]
        exact room.2
  · exact ⟨ban, (placed.apart.bans id same).trans stored, active, unchanged⟩

/-! ### Who has archived a user -/

/-- A user is archived by somebody, and a banned user only by the ban. -/
structure Inv (s : System) : Prop where
  named : ∀ id, s.accounts.archived id = (s.archivedBy id).isSome
  banned : ∀ id, s.accounts.banned id = true → s.archivedBy id ≠ some .account

theorem Inv.ban {s : System} (inv : Inv s) {id : Int} (archived : s.accounts.archived id = true)
    (notOtherwise : s.archivedBy id ≠ some .account) : s.archivedBy id = some .ban := by
  rw [inv.named] at archived
  obtain ⟨who, named⟩ := Option.isSome_iff_exists.mp archived
  cases who with
  | account => exact absurd named notOtherwise
  | ban => exact named

def Action.reactivates (id : Int) : Action → Bool
  | .reactivate userID => userID = id
  | _ => false

/-- What a careful action makes of the tables. -/
structure Fair (s : System) (action : Action) (a : Accounts) : Prop where
  banned : ∀ id, a.banned id = true → s.accounts.banned id = true ∨
    action.culprit = .ban ∧ s.archivedBy id ≠ some .account
  archived : ∀ id, s.accounts.archived id = false → a.archived id = true →
    action.culprit = .account → a.banned id = false
  active : ∀ id, s.accounts.archived id = true → a.archived id = false →
    s.archivedBy id = some .ban ∨ action.reactivates id = true

section Fair

variable {s : System} {action : Action} {a : Accounts} {userID : Int}

theorem fair_of_same (bans : a.bans = s.accounts.bans)
    (same : ∀ id, a.archived id = s.accounts.archived id) : Fair s action a := by
  refine ⟨fun id banned => .inl ?_, fun id before after _ => ?_, fun id before after => ?_⟩
  · rw [← banned_same bans]
    exact banned
  · rw [same, before] at after
    cases after
  · rw [same, before] at after
    cases after

theorem fair_of_placed {terms : Int × Int} (placed : Placed s.accounts a userID terms)
    (ban : action.culprit = .ban) (ok : s.archivedBy userID ≠ some .account) :
    Fair s action a := by
  refine ⟨fun id banned => ?_, fun id _ _ account => ?_, fun id before after => ?_⟩
  · by_cases same : id = userID
    · exact .inr ⟨ban, same ▸ ok⟩
    · left
      unfold Accounts.banned at banned ⊢
      rw [← placed.apart.bans id same]
      exact banned
  · rw [ban] at account
    cases account
  · by_cases same : id = userID
    · rw [same] at before after
      rw [placed.archived before] at after
      cases after
    · rw [placed.apart.archived id same, before] at after
      cases after

/-- Users are made active, each of them after a ban has archived them. -/
theorem fair_of_released (inv : Inv s) (released : Released s.accounts a)
    (ok : ∀ id, a.archived id ≠ s.accounts.archived id → s.archivedBy id ≠ some .account) :
    Fair s action a := by
  refine ⟨fun id banned => .inl (released.banned id banned), fun id before after _ => ?_,
    fun id before after => .inl ?_⟩
  · rw [released.archived id after] at before
    cases before
  · refine inv.ban before (ok id ?_)
    rw [before, after]
    exact Bool.false_ne_true

theorem fair_of_archive (ok : Careful s (.archive userID)) :
    Fair s (.archive userID) ((setRowStatus s.accounts none userID .Archived).toOption.getD s.accounts) := by
  cases set : setRowStatus s.accounts none userID .Archived with
  | error e => exact fair_of_same rfl fun _ => rfl
  | ok b =>
      show Fair s _ b
      refine ⟨fun id banned => .inl ?_, fun id before after _ => ?_, fun id before after => ?_⟩
      · rw [← banned_same (setRowStatus_spec set).1]
        exact banned
      · rw [banned_same (setRowStatus_spec set).1]
        by_cases same : id = userID
        · have free : (!s.accounts.banned id || s.accounts.archived id) = true := same ▸ ok
          rw [before, Bool.or_false] at free
          exact Bool.not_eq_true' _ ▸ free
        · rw [archived_other set same, before] at after
          cases after
      · by_cases same : id = userID
        · rw [same] at before after
          rw [archived_of_archived set before] at after
          cases after
        · rw [archived_other set same, before] at after
          cases after

theorem fair_of_reactivate :
    Fair s (.reactivate userID) ((setRowStatus s.accounts none userID .Normal).toOption.getD s.accounts) := by
  cases set : setRowStatus s.accounts none userID .Normal with
  | error e => exact fair_of_same rfl fun _ => rfl
  | ok b =>
      show Fair s _ b
      have released := released_of_normal set
      refine ⟨fun id banned => .inl (released.banned id banned), fun id before after _ => ?_,
        fun id before after => ?_⟩
      · rw [released.archived id after] at before
        cases before
      · by_cases same : id = userID
        · exact .inr (decide_eq_true same.symm)
        · rw [archived_other set same, before] at after
          cases after

theorem fair_of_careful (inv : Inv s) (ok : Careful s action) :
    Fair s action (action.apply s.accounts) := by
  cases action with
  | autoBan userID now count threshold initialDays faults =>
      obtain ⟨placed, refused⟩ :=
        automaticBan_spec s.accounts userID now faults count threshold initialDays
      unfold Careful careful at ok
      rw [Bool.or_eq_true, Bool.and_eq_true, decide_eq_true_eq] at ok
      rcases ok with refuses | ⟨ok, -⟩
      · have same := refused (Bool.not_eq_true' _ ▸ refuses)
        exact fair_of_same (congrArg Accounts.bans same) fun id =>
          congrArg (Accounts.archived · id) same
      · exact fair_of_placed placed rfl ok
  | manualBan adminID userID now days faults =>
      obtain ⟨placed, refused⟩ := manualBan_spec s.accounts userID now faults adminID days
      unfold Careful careful at ok
      rw [Bool.or_eq_true, decide_eq_true_eq] at ok
      rcases ok with refuses | ok
      · have same := refused (Bool.not_eq_true' _ ▸ refuses)
        exact fair_of_same (congrArg Accounts.bans same) fun id =>
          congrArg (Accounts.archived · id) same
      · exact fair_of_placed placed rfl ok
  | release userID now faults =>
      obtain ⟨released, apart⟩ := restoreModerationUser_spec s.accounts now userID faults
      refine fair_of_released inv released fun id changed => ?_
      by_cases same : id = userID
      · unfold Careful careful at ok
        rw [Bool.or_eq_true, decide_eq_true_eq] at ok
        rw [same]
        rcases ok with banned | ok
        · exact inv.banned userID banned
        · exact ok
      · exact absurd (apart.archived id same) changed
  | releaseExpired now faults =>
      obtain ⟨released, others⟩ := releaseExpired_spec s.accounts now faults
        (listExpiredModerationUserBanIDs s.accounts now 100)
      refine fair_of_released inv released fun id changed => ?_
      by_cases listed : id ∈ listExpiredModerationUserBanIDs s.accounts now 100
      · exact inv.banned id (banned_of_expired listed)
      · exact absurd (others id listed) changed
  | archive userID => exact fair_of_archive ok
  | reactivate userID => exact fair_of_reactivate
  | elsewhere state => exact fair_of_same rfl fun _ => rfl

end Fair

/-! ### The result -/

theorem Inv.step {s t : System} {action : Action} (inv : Inv s) (ok : Careful s action)
    (next : step s action = some t) : Inv t := by
  have fair := fair_of_careful inv ok
  injection next with next
  rw [← next]
  refine ⟨fun id => ?_, fun id banned => ?_⟩
  · show (action.apply s.accounts).archived id = (noted _ _ _ _ id).isSome
    unfold noted
    cases after : (action.apply s.accounts).archived id with
    | false => rfl
    | true =>
        cases before : s.accounts.archived id with
        | false => rfl
        | true =>
            rw [inv.named] at before
            exact before.symm
  · show noted _ _ _ _ id ≠ _
    unfold noted
    cases after : (action.apply s.accounts).archived id with
    | false => exact nofun
    | true =>
        cases before : s.accounts.archived id with
        | false =>
            intro account
            injection account with account
            have not := fair.archived id before after account
            rw [show (action.apply s.accounts).banned id = true from banned] at not
            cases not
        | true =>
            rcases fair.banned id banned with already | ⟨-, ok⟩
            · exact inv.banned id already
            · exact ok

/-- Nobody is banned, and those that are archived are so for other reasons. -/
def unbanned (a : Accounts) : System where
  accounts := a
  archivedBy id := if a.archived id then some .account else none

theorem inv_unbanned {a : Accounts} (empty : a.bans = ∅) : Inv (unbanned a) := by
  refine ⟨fun id => ?_, fun id banned => ?_⟩
  · show a.archived id = (if a.archived id then some ArchivedBy.account else none).isSome
    cases a.archived id with
    | false => rfl
    | true => rfl
  · rw [show (unbanned a).accounts.banned id = (a.bans.lookup id).any _ from rfl, empty] at banned
    cases banned

/-- A careful step makes a user active who was archived only if a ban had archived them. -/
theorem ban_of_active {s t : System} {action : Action} (inv : Inv s) (ok : Careful s action)
    (next : step s action = some t) {id : Int} (before : s.accounts.archived id = true)
    (after : t.accounts.archived id = false) :
    s.archivedBy id = some .ban ∨ action.reactivates id = true := by
  injection next with next
  rw [← next] at after
  exact (fair_of_careful inv ok).active id before after

/-- Who is archived otherwise stays so, until somebody makes them active. -/
theorem archived_of_run {s t : System} {id : Int} (inv : Inv s)
    (account : s.archivedBy id = some .account)
    (run : Run step (fun s action => Careful s action ∧ action.reactivates id = false) s t) :
    t.accounts.archived id = true := by
  have kept : Inv t ∧ t.archivedBy id = some .account := by
    refine run.invariant (P := fun t => Inv t ∧ t.archivedBy id = some .account) ⟨inv, account⟩ ?_
    intro t u action ⟨inv, account⟩ ⟨ok, notActive⟩ next
    refine ⟨inv.step ok next, ?_⟩
    have before : t.accounts.archived id = true := by
      rw [inv.named, account]
      rfl
    cases after : u.accounts.archived id with
    | false =>
        rcases ban_of_active inv ok next before after with ban | active
        · rw [account] at ban
          cases ban
        · rw [notActive] at active
          cases active
    | true =>
        injection next with next
        rw [← next] at after ⊢
        show noted _ _ _ _ id = _
        unfold noted
        rw [if_pos after, if_pos before]
        exact account
  rw [kept.1.named, kept.2]
  rfl

/-- **When a ban is only ever a ban.**

Start with nobody banned.  Take any run of automatic bans, bans by administrators, releases
and expiries, and of accounts archived and made active otherwise, in which every action is
careful, at any times and with any statements failing.

An automatic ban leaves every ban in force at least as long as it was, and for ever if it
was for ever.  Whoever is archived before an action and active after it had been archived
by a ban, unless it was the action to make them active.  And who is archived otherwise
stays so through all that follows, until somebody makes them active. -/
theorem bans_kept {a : Accounts} (empty : a.bans = ∅) {s : System}
    (run : Run step Careful (unbanned a) s) :
    (∀ userID now count threshold initialDays faults,
      Careful s (.autoBan userID now count threshold initialDays faults) →
      ∀ id ban, s.accounts.bans.lookup id = some ban → ban.active = true →
      ∃ after, (automaticBan s.accounts userID now count threshold initialDays faults).bans.lookup id
        = some after ∧ after.active = true ∧ after.Outlasts ban) ∧
    (∀ action t id, Careful s action → step s action = some t → s.accounts.archived id = true →
      t.accounts.archived id = false →
      s.archivedBy id = some .ban ∨ action.reactivates id = true) ∧
    ∀ id t, s.archivedBy id = some .account →
      Run step (fun s action => Careful s action ∧ action.reactivates id = false) s t →
      t.accounts.archived id = true := by
  have inv : Inv s :=
    run.invariant (inv_unbanned empty) fun _ _ _ inv ok next => inv.step ok next
  refine ⟨?_, ?_, ?_⟩
  · intro userID now count threshold initialDays faults ok id ban stored active
    exact outlasts_of_careful ok stored active
  · intro action t id ok next before after
    exact ban_of_active inv ok next before after
  · intro id t account rest
    exact archived_of_run inv account rest

/-! ### Eva and Tom -/

def evaAndTom : System := unbanned { state := twoUsers, bans := ∅ }

def reported (userID now : Int) : Action := .autoBan userID now 3 3 1 {}

/-- What is left alone about Eva's account. -/
def sparing (s : System) (action : Action) : Prop :=
  Careful s action ∧ action.reactivates 1 = false

instance (s : System) (action : Action) : Decidable (sparing s action) :=
  inferInstanceAs (Decidable (_ ∧ _))

/-- Eva archives her account and Tom is banned for a day, then for two, and then the time is
up. -/
theorem bans_kept_twice : ∃ s t u,
    follow step Careful evaAndTom [.archive 1, reported 2 0] = some s ∧
    step s (reported 2 3600) = some t ∧ step t (.releaseExpired 176400 fun _ => {}) = some u ∧
    (∃ ban, s.accounts.bans.lookup 2 = some ban ∧ ban.expiresTs = 86400 ∧
      ∃ after, t.accounts.bans.lookup 2 = some after ∧ after.active = true ∧ after.Outlasts ban) ∧
    t.accounts.archived 2 = true ∧ u.accounts.archived 2 = false ∧ t.archivedBy 2 = some .ban ∧
    u.accounts.archived 1 = true := by
  obtain ⟨s, t, u, ban, first, again, follows, rest, next, expired, stored, ends, active, ok, before,
      after, account⟩ :
      ∃ s t u ban, follow step Careful evaAndTom [.archive 1, reported 2 0] = some s ∧
        follow step Careful evaAndTom [.archive 1, reported 2 0, reported 2 3600] = some t ∧
        follow step sparing s [reported 2 3600, .releaseExpired 176400 fun _ => {}] = some u ∧
        careful t (.releaseExpired 176400 fun _ => {}) = true ∧
        step s (reported 2 3600) = some t ∧ step t (.releaseExpired 176400 fun _ => {}) = some u ∧
        s.accounts.bans.lookup 2 = some ban ∧ ban.expiresTs = 86400 ∧ ban.active = true ∧
        careful s (reported 2 3600) = true ∧ t.accounts.archived 2 = true ∧
        u.accounts.archived 2 = false ∧ s.archivedBy 1 = some .account :=
    ⟨_, _, _, _, rfl, rfl, rfl, rfl, rfl, rfl, rfl, rfl, rfl, rfl, rfl, rfl, rfl⟩
  obtain ⟨longer, -, stays⟩ := bans_kept (a := evaAndTom.accounts) rfl (run_of_follow first)
  obtain ⟨-, released, -⟩ := bans_kept (a := evaAndTom.accounts) rfl (run_of_follow again)
  have later := longer 2 3600 3 3 1 {} ok 2 ban stored active
  refine ⟨s, t, u, first, next, expired, ⟨ban, stored, ends, ?_⟩, before, after, ?_, ?_⟩
  · injection next with next
    rw [← next]
    exact later
  · rcases released _ u 2 rest expired before after with ban | active
    · exact ban
    · cases active
  · exact stays 1 u account (run_of_follow follows)

/-- Tom is banned for ever, and then for a day; and Tom archives his account, is banned for
a day, and is active when it is over. -/
theorem ban_shortened :
    (∃ s t, follow step (fun _ _ => True) evaAndTom [.manualBan 1 2 0 none {}] = some s ∧
      step s (reported 2 3600) = some t ∧
      (s.accounts.bans.lookup 2).map ModerationUserBan.expiresTs = some 0 ∧
      (t.accounts.bans.lookup 2).map ModerationUserBan.expiresTs = some 90000) ∧
    ∃ s t, follow step (fun _ _ => True) evaAndTom [.archive 2] = some s ∧
      s.accounts.archived 2 = true ∧ s.archivedBy 2 = some .account ∧
      follow step (fun _ _ => True) s
        [.manualBan 1 2 0 (some 1) {}, .releaseExpired 86400 fun _ => {}] = some t ∧
      t.accounts.archived 2 = false :=
  ⟨⟨_, _, rfl, rfl, rfl, rfl⟩, _, _, rfl, rfl, rfl, rfl, rfl⟩

end Memos.Api.Bans

/-
When the release of the expired bans comes to an end.

Every round reads the first hundred expired bans again.  A ban whose user cannot be restored
stays on the list, and errors are only logged: a round makes progress as long as one of the
hundred can be restored.  With fewer than a hundred bans that stay, every full page has one
that goes, so the active bans are the measure; with a hundred of them all pages stay full.
-/
import Memos.Proofs.Api.UserBan
import Mathlib.Data.Finset.Card
import Mathlib.Data.Finset.Order

namespace Memos.Api.Bans

open Store Access

/-! ### Bans on the list -/

def temporary (ban : ModerationUserBan) : Bool := ban.active && decide (0 < ban.expiresTs)

def bannedWith (a : Accounts) (p : ModerationUserBan → Bool) : Finset Int :=
  a.bans.keys.toFinset.filter fun id => (a.bans.lookup id).any p

def expired (a : Accounts) (now : Int) : Finset Int :=
  bannedWith a fun ban => ban.active && decide (0 < ban.expiresTs) && decide (ban.expiresTs ≤ now)

def activeBans (a : Accounts) : Finset Int := bannedWith a ModerationUserBan.active

section List

variable {a : Accounts} {now id : Int} {p : ModerationUserBan → Bool}

theorem mem_bannedWith : id ∈ bannedWith a p ↔ (a.bans.lookup id).any p = true := by
  unfold bannedWith
  rw [Finset.mem_filter, List.mem_toFinset]
  refine and_iff_right_of_imp fun is => ?_
  rw [← AList.mem_keys, ← AList.lookup_isSome]
  cases found : a.bans.lookup id with
  | none =>
      rw [found] at is
      cases is
  | some ban => rfl

theorem mem_activeBans : id ∈ activeBans a ↔ a.banned id = true := mem_bannedWith

theorem active_of_expired (mem : id ∈ expired a now) : id ∈ activeBans a := by
  unfold expired at mem
  rw [mem_bannedWith] at mem
  rw [activeBans, mem_bannedWith]
  cases found : a.bans.lookup id with
  | none =>
      rw [found] at mem
      cases mem
  | some ban =>
      rw [found, Option.any_some, Bool.and_eq_true, Bool.and_eq_true] at mem
      exact mem.1.1

/-- The whole list, of which a page is the beginning. -/
def expiredList (a : Accounts) (now : Int) : List Int :=
  ((a.bans.entries.filter fun row =>
      row.2.active && decide (0 < row.2.expiresTs) && decide (row.2.expiresTs ≤ now)).insertionSort
    fun x y => x.2.expiresTs ≤ y.2.expiresTs).map Sigma.fst

theorem listExpired_eq (limit : Nat) :
    listExpiredModerationUserBanIDs a now limit = (expiredList a now).take limit := rfl

theorem mem_expiredList : id ∈ expiredList a now ↔ id ∈ expired a now := by
  unfold expiredList expired
  rw [mem_bannedWith, List.mem_map]
  constructor
  · rintro ⟨⟨id, ban⟩, mem, rfl⟩
    rw [List.mem_insertionSort, List.mem_filter] at mem
    rw [AList.mem_lookup_iff.mpr mem.1]
    exact mem.2
  · intro is
    cases found : a.bans.lookup id with
    | none =>
        rw [found] at is
        cases is
    | some ban =>
        rw [found] at is
        refine ⟨⟨id, ban⟩, ?_, rfl⟩
        rw [List.mem_insertionSort, List.mem_filter]
        exact ⟨AList.mem_lookup_iff.mp found, is⟩

theorem expiredList_nodup : (expiredList a now).Nodup := by
  unfold expiredList
  refine ((List.perm_insertionSort _ _).map _).nodup_iff.mpr ?_
  exact a.bans.nodupKeys.sublist List.filter_sublist

theorem expiredList_length : (expiredList a now).length = (expired a now).card := by
  have same : (expiredList a now).toFinset = expired a now := by
    ext id
    rw [List.mem_toFinset, mem_expiredList]
  rw [← same, List.toFinset_card_of_nodup expiredList_nodup]

theorem page_length : (listExpiredModerationUserBanIDs a now 100).length = min 100 (expired a now).card := by
  rw [listExpired_eq, List.length_take, expiredList_length]

theorem page_nodup : (listExpiredModerationUserBanIDs a now 100).Nodup :=
  expiredList_nodup.sublist (List.take_sublist _ _)

theorem expired_of_page (mem : id ∈ listExpiredModerationUserBanIDs a now 100) : id ∈ expired a now :=
  mem_expiredList.mp (List.mem_of_mem_take mem)

theorem page_of_expired (short : (listExpiredModerationUserBanIDs a now 100).length < 100)
    (mem : id ∈ expired a now) : id ∈ listExpiredModerationUserBanIDs a now 100 := by
  rw [page_length] at short
  rw [listExpired_eq, List.take_of_length_le (by rw [expiredList_length]; omega)]
  exact mem_expiredList.mpr mem

end List

/-! ### Restoring -/

/-- The ban stays active when the user is to be restored: the user is not there or cannot be
updated, or the ban cannot be. -/
def Stuck (a : Accounts) (faults : Int → RestoreFaults) (id : Int) : Prop :=
  (faults id).restore ≠ none ∨ a.state.users.find? id = none ∨ (faults id).deactivate ≠ none

instance (a : Accounts) (faults : Int → RestoreFaults) : DecidablePred (Stuck a faults) := fun id =>
  inferInstanceAs (Decidable ((faults id).restore ≠ none ∨ a.state.users.find? id = none ∨
    (faults id).deactivate ≠ none))

structure Restored (a : Accounts) (id : Int) : Prop where
  banned : a.banned id = false
  archived : a.archived id = false

section Restoring

variable {a b c : Accounts} {faults : Int → RestoreFaults} {now id : Int}

theorem Restored.of_released (released : Released a b) (restored : Restored a id) : Restored b id :=
  ⟨Bool.eq_false_iff.mpr fun is => Bool.eq_false_iff.mp restored.banned (released.banned id is),
    Bool.eq_false_iff.mpr fun is => Bool.eq_false_iff.mp restored.archived (released.archived id is)⟩

theorem setRowStatus_normal (there : a.state.users.find? id ≠ none) :
    ∃ b, setRowStatus a none id .Normal = .ok b := by
  obtain ⟨users, updated⟩ := a.state.users.update_ok (fun u => decide (u.id = id))
    (f := (rowStatusUpdate id .Normal).apply) (fun _ _ => ⟨rfl, rfl⟩) fun _ => rfl
  have found := Keyed.Table.find?_update updated (fun _ => rfl) id
  cases before : a.state.users.find? id with
  | none => exact absurd before there
  | some u =>
      rw [before] at found
      have ok : updateUser a.state (rowStatusUpdate id .Normal) =
          .ok ({ a.state with users },
            if decide (u.id = id) then (rowStatusUpdate id .Normal).apply u else u) := by
        unfold updateUser
        rw [show a.state.users.update (fun u => decide (u.id = (rowStatusUpdate id .Normal).id))
          (rowStatusUpdate id .Normal).apply = .ok users from updated]
        show (do
          let user ← orElse (users.find? id) .NoRows
          return ({ a.state with users }, user)) = _
        rw [found]
        rfl
      refine ⟨{ a with state := { a.state with users } }, ?_⟩
      unfold setRowStatus
      dsimp only
      rw [ok]

/-- Who is there does not change. -/
theorem find?_setRowStatus {fault : Option String} {rowStatus : RowStatus}
    (h : setRowStatus a fault id rowStatus = .ok b) (other : Int) :
    b.state.users.find? other = none ↔ a.state.users.find? other = none := by
  have same := (setRowStatus_spec h).2 other
  unfold Accounts.status at same
  cases before : a.state.users.find? other with
  | none =>
      rw [before] at same
      simpa using same
  | some u =>
      rw [before] at same
      cases after : b.state.users.find? other with
      | none =>
          rw [after] at same
          cases same
      | some u' => simp

theorem there_of_setRowStatus {fault : Option String} {rowStatus : RowStatus}
    (h : setRowStatus a fault id rowStatus = .ok b) :
    fault = none ∧ a.state.users.find? id ≠ none := by
  have users := find?_setRowStatus h id
  unfold setRowStatus at h
  cases fault with
  | some e => cases h
  | none =>
      refine ⟨rfl, fun missing => ?_⟩
      dsimp only at h
      split at h
      next state user updated =>
        injection h with h
        rw [← h] at users
        simp only [updateUser, bind_eq_ok, pure_eq_ok, Prod.mk.injEq, orElse_eq_ok] at updated
        obtain ⟨_, -, _, -, found, -, _, there, rfl, -⟩ := updated
        have gone : found.find? id = none := users.mpr missing
        rw [show (rowStatusUpdate id rowStatus).id = id from rfl, gone] at there
        cases there
      · cases h

/-- After some releases: the same users, and each ban as it was or its user restored. -/
structure Kept (faults : Int → RestoreFaults) (a b : Accounts) : Prop where
  released : Released a b
  users : ∀ id, b.state.users.find? id = none ↔ a.state.users.find? id = none
  bans : ∀ id, b.bans.lookup id = a.bans.lookup id ∨ ¬Stuck a faults id ∧ Restored b id

theorem Kept.refl (faults : Int → RestoreFaults) (a : Accounts) : Kept faults a a :=
  ⟨Released.refl a, fun _ => Iff.rfl, fun _ => .inl rfl⟩

theorem Kept.stuck_iff (kept : Kept faults a b) (id : Int) : Stuck b faults id ↔ Stuck a faults id := by
  unfold Stuck
  rw [kept.users id]

theorem Kept.trans (first : Kept faults a b) (second : Kept faults b c) : Kept faults a c := by
  refine ⟨first.released.trans second.released, fun id => (second.users id).trans (first.users id),
    fun id => ?_⟩
  obtain same | ⟨free, restored⟩ := second.bans id
  · obtain same' | ⟨free, restored⟩ := first.bans id
    · exact .inl (same.trans same')
    · exact .inr ⟨free, restored.of_released second.released⟩
  · exact .inr ⟨mt (first.stuck_iff id).mpr free, restored⟩

theorem banned_deactivate :
    (deactivateModerationUserBan a now id).banned id = false := by
  unfold deactivateModerationUserBan Accounts.banned
  split
  · dsimp only
    rw [AList.lookup_insert]
    rfl
  next none =>
    rw [none]
    rfl

theorem kept_restore (faults : Int → RestoreFaults) (a : Accounts) (now id : Int) :
    Kept faults a (restoreModerationUser a now id (faults id)).1 ∧
      (¬Stuck a faults id → Restored (restoreModerationUser a now id (faults id)).1 id) := by
  obtain ⟨released, apart⟩ := restoreModerationUser_spec a now id (faults id)
  have others (b : Accounts) (same : b = (restoreModerationUser a now id (faults id)).1)
      (users : ∀ id, b.state.users.find? id = none ↔ a.state.users.find? id = none)
      (own : b.bans.lookup id = a.bans.lookup id ∨ ¬Stuck a faults id ∧ Restored b id) :
      Kept faults a b := by
    subst same
    refine ⟨released, users, fun other => ?_⟩
    by_cases this : other = id
    · rw [this]
      exact own
    · exact .inl (apart.bans other this)
  cases restored : setRowStatus a (faults id).restore id .Normal with
  | error e =>
      have result : (restoreModerationUser a now id (faults id)).1 = a := by
        rw [restoreModerationUser, restored]
      refine ⟨others _ rfl ?_ ?_, fun free => absurd ?_ free⟩
      · rw [result]
        exact fun _ => Iff.rfl
      · rw [result]
        exact .inl rfl
      · by_cases fault : (faults id).restore = none
        · by_cases there : a.state.users.find? id = none
          · exact .inr (.inl there)
          · obtain ⟨b, ok⟩ := setRowStatus_normal there
            rw [fault, ok] at restored
            cases restored
        · exact .inl fault
  | ok b =>
      have users := find?_setRowStatus restored
      have inactive := not_archived_of_normal restored
      cases stays : (faults id).deactivate with
      | some e =>
          have result : (restoreModerationUser a now id (faults id)).1 = b := by
            rw [restoreModerationUser, restored, stays]
          refine ⟨others _ rfl ?_ ?_, fun free => absurd (.inr (.inr (by simp [stays]))) free⟩
          · rw [result]
            exact users
          · rw [result]
            exact .inl (by rw [(setRowStatus_spec restored).1])
      | none =>
          have result : (restoreModerationUser a now id (faults id)).1 =
              deactivateModerationUserBan b now id := by
            rw [restoreModerationUser, restored, stays]
            dsimp only
            split
            · rfl
            · rfl
          have state : (deactivateModerationUserBan b now id).state = b.state := by
            unfold deactivateModerationUserBan
            split
            · rfl
            · rfl
          have done : Restored (deactivateModerationUserBan b now id) id := by
            refine ⟨banned_deactivate, ?_⟩
            rw [← inactive, Accounts.archived, Accounts.archived, Accounts.status, Accounts.status, state]
          rw [result]
          refine ⟨others _ result.symm ?_ ?_, fun _ => done⟩
          · rw [state]
            exact users
          · obtain ⟨works, there⟩ := there_of_setRowStatus restored
            refine .inr ⟨?_, done⟩
            rintro (failed | missing | failed)
            · exact failed works
            · exact there missing
            · exact failed stays

theorem kept_releases (faults : Int → RestoreFaults) (a : Accounts) (now : Int) (ids : List Int) :
    Kept faults a (ids.foldl (fun a id => (restoreModerationUser a now id (faults id)).1) a) ∧
      ∀ id ∈ ids, ¬Stuck a faults id →
        Restored (ids.foldl (fun a id => (restoreModerationUser a now id (faults id)).1) a) id := by
  induction ids generalizing a with
  | nil => exact ⟨.refl faults a, fun id mem => absurd mem List.not_mem_nil⟩
  | cons id ids ih =>
      obtain ⟨kept, own⟩ := kept_restore faults a now id
      obtain ⟨rest, others⟩ := ih (restoreModerationUser a now id (faults id)).1
      refine ⟨kept.trans rest, fun other mem free => ?_⟩
      obtain rfl | mem := List.mem_cons.mp mem
      · exact (own free).of_released rest.released
      · exact others other mem (mt (kept.stuck_iff other).mp free)

/-! ### Bans that stay -/

/-- The users whose ban ends some time, and who cannot be restored. -/
def stuckBans (a : Accounts) (faults : Int → RestoreFaults) : Finset Int :=
  (bannedWith a temporary).filter (Stuck a faults)

theorem mem_stuckBans :
    id ∈ stuckBans a faults ↔ (a.bans.lookup id).any temporary = true ∧ Stuck a faults id := by
  unfold stuckBans
  rw [Finset.mem_filter, mem_bannedWith]

theorem Kept.lookup_of_stuck (kept : Kept faults a b) (stuck : Stuck a faults id) :
    b.bans.lookup id = a.bans.lookup id := by
  obtain same | ⟨free, -⟩ := kept.bans id
  · exact same
  · exact absurd stuck free

theorem Kept.stuckBans_eq (kept : Kept faults a b) : stuckBans b faults = stuckBans a faults := by
  ext id
  rw [mem_stuckBans, mem_stuckBans, kept.stuck_iff id]
  refine and_congr_left fun stuck => ?_
  rw [kept.lookup_of_stuck stuck]

theorem temporary_of_expired (mem : id ∈ expired a now) : (a.bans.lookup id).any temporary = true := by
  unfold expired at mem
  rw [mem_bannedWith] at mem
  cases found : a.bans.lookup id with
  | none =>
      rw [found] at mem
      cases mem
  | some ban =>
      rw [found, Option.any_some, Bool.and_eq_true] at mem
      exact mem.1

/-- A ban that has expired, has expired later unless it was released. -/
theorem Kept.expired (kept : Kept faults a b) {later : Int} (le : now ≤ later)
    (mem : id ∈ expired a now) : id ∈ Bans.expired b later ∨ Restored b id := by
  obtain same | ⟨-, restored⟩ := kept.bans id
  · refine .inl ?_
    unfold Bans.expired at mem ⊢
    rw [mem_bannedWith] at mem ⊢
    rw [same]
    cases found : a.bans.lookup id with
    | none =>
        rw [found] at mem
        cases mem
    | some ban =>
        rw [found, Option.any_some, Bool.and_eq_true, decide_eq_true_eq] at mem
        rw [Option.any_some, Bool.and_eq_true, decide_eq_true_eq]
        exact ⟨mem.1, mem.2.trans le⟩
  · exact .inr restored

theorem exists_late (a : Accounts) (faults : Int → RestoreFaults) :
    ∃ late, ∀ later, late ≤ later → stuckBans a faults ⊆ expired a later := by
  obtain ⟨late, bound⟩ := Finset.exists_le ((stuckBans a faults).image fun id =>
    ((a.bans.lookup id).map ModerationUserBan.expiresTs).getD 0)
  refine ⟨late, fun later le id mem => ?_⟩
  have ends := bound _ (Finset.mem_image_of_mem _ mem)
  have ban := (mem_stuckBans.mp mem).1
  unfold expired
  rw [mem_bannedWith]
  cases found : a.bans.lookup id with
  | none =>
      rw [found] at ban
      cases ban
  | some ban' =>
      rw [found, Option.any_some] at ban
      rw [found] at ends
      rw [Option.any_some, Bool.and_eq_true, decide_eq_true_eq]
      exact ⟨ban, ends.trans le⟩

end Restoring

/-! ### The loop -/

section Loop

variable {a b c : Accounts} {faults : Int → RestoreFaults} {clock : Nat → Int} {now : Int}

/-- With a page that is not full the loop is done, and all on it are restored who can be. -/
theorem loop_short (n : Nat) (short : (expired a (clock n)).card < 100) :
    ∃ b, releaseLoop clock faults 1 n a = some b ∧ Kept faults a b ∧
      ∀ id ∈ expired a (clock n), ¬Stuck a faults id → Restored b id := by
  have length : (listExpiredModerationUserBanIDs a (clock n) 100).length < 100 := by
    rw [page_length]
    omega
  unfold releaseLoop
  by_cases none : listExpiredModerationUserBanIDs a (clock n) 100 = []
  · refine ⟨a, if_pos none, .refl faults a, fun id mem _ => ?_⟩
    have listed := page_of_expired length mem
    rw [none] at listed
    cases listed
  · obtain ⟨kept, restored⟩ :=
      kept_releases faults a (clock n) (listExpiredModerationUserBanIDs a (clock n) 100)
    refine ⟨_, (if_neg none).trans (if_pos length), kept, fun id mem free => ?_⟩
    exact restored id (page_of_expired length mem) free

/-- With a full page it goes on. -/
theorem loop_full {rounds n : Nat} (full : ¬(expired a (clock n)).card < 100) :
    releaseLoop clock faults (rounds + 1) n a =
      releaseLoop clock faults rounds (n + 1) (releaseExpiredUserBans a (clock n) faults) := by
  have length : ¬(listExpiredModerationUserBanIDs a (clock n) 100).length < 100 := by
    rw [page_length]
    omega
  have some' : listExpiredModerationUserBanIDs a (clock n) 100 ≠ [] := by
    rintro none
    rw [none] at length
    exact length (by decide)
  rw [releaseLoop, if_neg some', if_neg length]

/-- A full page has someone who can be restored, unless a hundred cannot. -/
theorem exists_free (few : (stuckBans a faults).card < 100) (full : ¬(expired a now).card < 100) :
    ∃ id ∈ listExpiredModerationUserBanIDs a now 100, ¬Stuck a faults id := by
  by_contra none
  push Not at none
  have sub : (listExpiredModerationUserBanIDs a now 100).toFinset ⊆ stuckBans a faults := by
    intro id mem
    rw [List.mem_toFinset] at mem
    exact mem_stuckBans.mpr ⟨temporary_of_expired (expired_of_page mem), none id mem⟩
  have le := Finset.card_le_card sub
  rw [List.toFinset_card_of_nodup page_nodup, page_length] at le
  omega

/-- That is one active ban less. -/
theorem fewer_of_full (few : (stuckBans a faults).card < 100) (full : ¬(expired a now).card < 100) :
    (activeBans (releaseExpiredUserBans a now faults)).card < (activeBans a).card := by
  obtain ⟨id, mem, free⟩ := exists_free few full
  obtain ⟨kept, restored⟩ := kept_releases faults a now (listExpiredModerationUserBanIDs a now 100)
  refine Finset.card_lt_card (Finset.ssubset_iff_of_subset ?_ |>.mpr ⟨id, ?_, ?_⟩)
  · intro other mem
    exact mem_activeBans.mpr (kept.released.banned other (mem_activeBans.mp mem))
  · exact active_of_expired (expired_of_page mem)
  · intro mem'
    have active := mem_activeBans.mp mem'
    have gone := (restored id mem free).banned
    rw [releaseExpiredUserBans, gone] at active
    cases active

/-- With fewer than a hundred bans that stay, the loop ends. -/
theorem loop_ends (forward : ∀ i j, i ≤ j → clock i ≤ clock j) (a : Accounts) (n : Nat)
    (few : (stuckBans a faults).card < 100) :
    ∃ rounds b, releaseLoop clock faults rounds n a = some b ∧ Kept faults a b ∧
      ∀ id ∈ expired a (clock n), ¬Stuck a faults id → Restored b id := by
  by_cases full : (expired a (clock n)).card < 100
  · exact ⟨1, loop_short n full⟩
  · obtain ⟨kept, -⟩ :=
      kept_releases faults a (clock n) (listExpiredModerationUserBanIDs a (clock n) 100)
    have less := fewer_of_full few full
    have few' : (stuckBans (releaseExpiredUserBans a (clock n) faults) faults).card < 100 := by
      rw [releaseExpiredUserBans, kept.stuckBans_eq]
      exact few
    obtain ⟨rounds, b, ends, rest, all⟩ :=
      loop_ends forward (releaseExpiredUserBans a (clock n) faults) (n + 1) few'
    refine ⟨rounds + 1, b, (loop_full full).trans ends, kept.trans rest, fun id mem free => ?_⟩
    obtain later | restored := kept.expired (forward n (n + 1) n.le_succ) mem
    · exact all id later (mt (kept.stuck_iff id).mp free)
    · exact restored.of_released rest.released
termination_by (activeBans a).card

theorem loop_none (a : Accounts) (n : Nat) (full : ¬(expired a (clock n)).card < 100)
    (many : ¬(stuckBans a faults).card < 100)
    (late : ∀ m, n < m → stuckBans a faults ⊆ expired a (clock m)) (rounds : Nat) :
    releaseLoop clock faults rounds n a = none := by
  induction rounds generalizing a n with
  | zero => rfl
  | succ rounds ih =>
      obtain ⟨kept, -⟩ :=
        kept_releases faults a (clock n) (listExpiredModerationUserBanIDs a (clock n) 100)
      have same : stuckBans (releaseExpiredUserBans a (clock n) faults) faults = stuckBans a faults :=
        kept.stuckBans_eq
      have later (m : Nat) (lt : n < m) :
          stuckBans a faults ⊆ expired (releaseExpiredUserBans a (clock n) faults) (clock m) := by
        intro id mem
        have stuck := (mem_stuckBans.mp mem).2
        have listed := late m lt mem
        unfold expired at listed ⊢
        rw [mem_bannedWith] at listed ⊢
        rw [releaseExpiredUserBans, kept.lookup_of_stuck stuck]
        exact listed
      rw [loop_full full]
      refine ih _ (n + 1) ?_ ?_ fun m lt => ?_
      · have le := Finset.card_le_card (later (n + 1) n.lt_succ_self)
        omega
      · rw [same]
        exact many
      · rw [same]
        exact later m (by omega)

end Loop

/-! ### Releasing all -/

/-- However the clock goes on, the loop ends, and those whose ban had expired and who can be
restored are restored. -/
def ReleasesAll (a : Accounts) (now : Int) (faults : Int → RestoreFaults) : Prop :=
  ∀ clock : Nat → Int, clock 0 = now → (∀ i j, i ≤ j → clock i ≤ clock j) →
    ∃ rounds b, releaseLoop clock faults rounds 0 a = some b ∧
      ∀ id ∈ expired a now, (restoreModerationUser a now id (faults id)).2 = .ok () → Restored b id

theorem not_stuck_of_ok {a : Accounts} {now id : Int} {faults : Int → RestoreFaults}
    (ok : (restoreModerationUser a now id (faults id)).2 = .ok ()) : ¬Stuck a faults id := by
  unfold restoreModerationUser at ok
  cases restored : setRowStatus a (faults id).restore id .Normal with
  | error e =>
      rw [restored] at ok
      cases ok
  | ok b =>
      rw [restored] at ok
      obtain ⟨works, there⟩ := there_of_setRowStatus restored
      rintro (failed | missing | failed)
      · exact failed works
      · exact there missing
      · cases stays : (faults id).deactivate with
        | none => exact failed stays
        | some e =>
            rw [stays] at ok
            cases ok

theorem ok_of_not_stuck {a : Accounts} {now id : Int} {faults : Int → RestoreFaults}
    (free : ¬Stuck a faults id) (clear : (faults id).clear = none) :
    (restoreModerationUser a now id (faults id)).2 = .ok () := by
  unfold Stuck at free
  push Not at free
  obtain ⟨works, there, deactivates⟩ := free
  obtain ⟨b, restored⟩ := setRowStatus_normal there
  unfold restoreModerationUser
  rw [works, restored]
  dsimp only
  rw [deactivates]
  dsimp only
  rw [clear]

/-- A clock that jumps, after the first look at it. -/
theorem exists_clock (now late : Int) :
    ∃ clock : Nat → Int, clock 0 = now ∧ (∀ i j, i ≤ j → clock i ≤ clock j) ∧
      ∀ m, 0 < m → late ≤ clock m := by
  refine ⟨fun n => if n = 0 then now else max now late, rfl, fun i j le => ?_, fun m lt => ?_⟩
  · dsimp only
    by_cases first : i = 0
    · rw [if_pos first]
      split
      · exact Int.le_refl _
      · exact Int.le_max_left now late
    · refine Int.le_of_eq ?_
      rw [if_neg first, if_neg (by omega)]
  · dsimp only
    rw [if_neg (Nat.ne_of_gt lt)]
    exact Int.le_max_right now late

/-- The loop releases all exactly when fewer than a hundred bans have expired, or fewer than a
hundred of those that end some time are of users who cannot be restored. -/
theorem releasesAll_iff (a : Accounts) (now : Int) (faults : Int → RestoreFaults) :
    ReleasesAll a now faults ↔
      (expired a now).card < 100 ∨ (stuckBans a faults).card < 100 := by
  constructor
  · intro all
    by_contra some'
    rw [not_or] at some'
    obtain ⟨late, ends⟩ := exists_late a faults
    obtain ⟨clock, start, forward, jumps⟩ := exists_clock now late
    obtain ⟨rounds, b, ends', -⟩ := all clock start forward
    rw [← start] at some'
    have never := loop_none a 0 some'.1 some'.2 (fun m lt => ends _ (jumps m lt)) rounds
    cases never.symm.trans ends'
  · rintro few clock rfl forward
    have free (id : Int) (ok : (restoreModerationUser a (clock 0) id (faults id)).2 = .ok ()) :
        ¬Stuck a faults id := not_stuck_of_ok ok
    rcases few with few | few
    · obtain ⟨b, ends, -, all⟩ := @loop_short a faults clock 0 few
      exact ⟨1, b, ends, fun id mem ok => all id mem (free id ok)⟩
    · obtain ⟨rounds, b, ends, -, all⟩ := loop_ends forward a 0 few
      exact ⟨rounds, b, ends, fun id mem ok => all id mem (free id ok)⟩

/-! ### A hundred deleted accounts -/

def banUntil (userID expiresTs : Int) : ModerationUserBan :=
  { userID, createdTs := 0, updatedTs := 0, expiresTs, strikeCount := 1, source := .AUTO, active := true }

/-- A user who is deleted leaves the ban behind: a hundred bans are of users who are no longer
there, and one is of Tom. -/
def hundredDeleted : Accounts where
  state := twoUsers
  bans :=
    ⟨⟨2, banUntil 2 20⟩ ::
        (List.range 100).map fun n : Nat => (⟨n + 3, banUntil (n + 3) 10⟩ : Sigma fun _ : Int => _), by
      show List.Nodup (List.map Sigma.fst _)
      decide +kernel⟩

/-- The loop reads the same hundred again and again, and never comes to Tom. -/
theorem release_never_ends :
    2 ∈ expired hundredDeleted 100 ∧
      (restoreModerationUser hundredDeleted 100 2 {}).2 = .ok () ∧
      ¬ReleasesAll hundredDeleted 100 (fun _ => {}) ∧
      ∀ rounds, releaseLoop (fun _ => 100) (fun _ => {}) rounds 0 hundredDeleted = none := by
  have full : ¬(expired hundredDeleted 100).card < 100 := by decide +kernel
  have many : ¬(stuckBans hundredDeleted fun _ => {}).card < 100 := by decide +kernel
  have late : stuckBans hundredDeleted (fun _ => {}) ⊆ expired hundredDeleted 100 := by decide +kernel
  have never (rounds : Nat) :
      releaseLoop (fun _ => 100) (fun _ => {}) rounds 0 hundredDeleted = none := by
    apply loop_none
    · exact full
    · exact many
    · exact fun _ _ => late
  have listed : 2 ∈ expired hundredDeleted 100 := by decide +kernel
  have there : hundredDeleted.state.users.find? 2 ≠ none := by decide
  have free : ¬Stuck hundredDeleted (fun _ => {}) 2 := by simp [Stuck, there]
  refine ⟨listed, ok_of_not_stuck free rfl, fun all => ?_, never⟩
  obtain ⟨rounds, b, ends, -⟩ := all (fun _ => 100) rfl fun _ _ _ => le_refl _
  cases (never rounds).symm.trans ends

end Memos.Api.Bans

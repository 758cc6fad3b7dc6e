/-
What holds of a memo that was written under a policy.

The validator predicts the placement and the audience of the memo after the update, and
decides about the prediction.  Everything it promises carries over to the written row as
far as the prediction is what the writer writes.  The two read the update's fields in a
different order: given a Space and the request to clear it, the validator places the
memo in the Space and the writer clears it.  There the promises are about a row that
was never written.

The other gap is in what the snapshot contains.  Shares are only looked up when the
update sets the audience to `SPACE`; an update that leaves it unset keeps whatever
shares a `SPACE` memo has.

Outside these two cases the invariants hold, and inside each of them one fails, so the
condition is exact.
-/
import Memos.Store.MemoWrite

namespace Memos.Store

/-! ### The invariants -/

def MayWrite (state : State) (userID spaceID : Int) : Prop :=
  ∃ space ∈ state.spaces, space.id = spaceID ∧
    (space.accessMode = .Public ∨ space.accessMode = .Authenticated ∨
      ∃ sm ∈ state.members, sm.spaceID = spaceID ∧ sm.userID = userID ∧ sm.status = .Active ∧
        sm.role.isActiveMember = true)

/-- The actor of the policy is active, and created the memo or administers the instance or
the memo's Space. -/
def MayMutate (state : State) (policy : MemoWritePolicy) (memo : MemoRow) : Prop :=
  ∃ actor ∈ state.users, actor.id = policy.actorUserID ∧ actor.rowStatus = .Normal ∧
    (memo.creatorID = actor.id ∨ (policy.adminOverride = true ∧ (actor.role = .Admin ∨
      ∃ sm ∈ state.members, memo.spaceID = some sm.spaceID ∧ sm.userID = actor.id ∧
        sm.status = .Active ∧ sm.role = .Admin)))

/-- What the validator aims at, of the memo before and after the update. -/
structure WriteInvariants (state : State) (now : Int) (policy : MemoWritePolicy)
    (update : UpdateMemo) (memo memo' : MemoRow) : Prop where
  placed : memo'.visibility = .SpaceAudience → memo'.spaceID ≠ none
  writable : ∀ spaceID, memo'.spaceID = some spaceID →
    memo.spaceID = some spaceID ∨ MayWrite state policy.actorUserID spaceID
  authority : MayMutate state policy memo
  unshared : memo'.visibility = .SpaceAudience → hasActiveShare state now memo'.id = false
  predicted : memo'.spaceID = resultSpaceID (some update) memo.spaceID ∧
    memo'.visibility = resultVisibility (some update) memo.visibility

/-! ### What the writer writes -/

/-- The tables an update of a memo does not touch. -/
structure SameTables (s t : State) : Prop where
  users : s.users = t.users
  spaces : s.spaces = t.spaces
  members : s.members = t.members
  shares : s.shares = t.shares

/-- Two rows that the invariants cannot tell apart. -/
def SameMemo (m n : MemoRow) : Prop :=
  m.id = n.id ∧ m.spaceID = n.spaceID ∧ m.visibility = n.visibility

/-- The revision history leaves every memo alone but for its last editor. -/
theorem captureMemoRevision_spec {state state' : State} {now : Int} {update : UpdateMemo}
    (h : captureMemoRevision state now update = .ok state') :
    SameTables state' state ∧ ∀ memo' ∈ state'.memos, ∃ memo ∈ state.memos, SameMemo memo' memo := by
  have same : SameTables state state ∧ ∀ memo' ∈ state.memos, ∃ memo ∈ state.memos,
      SameMemo memo' memo :=
    ⟨⟨rfl, rfl, rfl, rfl⟩, fun memo hmemo => ⟨memo, hmemo, rfl, rfl, rfl⟩⟩
  rw [captureMemoRevision] at h
  split at h
  · split at h
    · rw [← Except.ok.inj h]
      exact same
    · simp only [bind_eq_ok] at h
      obtain ⟨memo, -, h⟩ := h
      split at h
      · rw [← Except.ok.inj h]
        exact same
      · simp only [bind_eq_ok, pure_eq_ok] at h
        obtain ⟨revisions, -, memos, hmemos, rfl⟩ := h
        refine ⟨⟨rfl, rfl, rfl, rfl⟩, fun memo' hmemo' => ?_⟩
        obtain ⟨source, hsource, rfl⟩ :=
          (Keyed.Table.mem_update (of_constrained hmemos)).mp hmemo'
        refine ⟨source, hsource, ?_⟩
        split <;> exact ⟨rfl, rfl, rfl⟩
  · rw [← Except.ok.inj h]
    exact same

theorem applyMemoUpdate_spec {state state' : State} {now : Int} {update : UpdateMemo}
    {memo memo' : MemoRow} (h : applyMemoUpdate state now update = .ok state')
    (stored : memo ∈ state.memos) (hid : memo.id = update.id) (written : memo' ∈ state'.memos)
    (hid' : memo'.id = update.id) :
    SameTables state' state ∧
      memo'.spaceID = (update.apply memo).spaceID ∧ memo'.visibility = (update.apply memo).visibility := by
  simp only [applyMemoUpdate, bind_eq_ok] at h
  obtain ⟨middle, captured, h⟩ := h
  obtain ⟨⟨users, spaces, members, shares⟩, rows⟩ := captureMemoRevision_spec captured
  -- The row of the memo between the two writes.
  have between : ∀ row ∈ middle.memos, row.id = update.id →
      row.spaceID = memo.spaceID ∧ row.visibility = memo.visibility := by
    intro row hrow hrid
    obtain ⟨source, hsource, sameID, sameSpace, sameVisibility⟩ := rows row hrow
    have : source = memo :=
      Keyed.Table.eq_of_key hsource stored (sameID.symm.trans (hrid.trans hid.symm))
    rw [← this]
    exact ⟨sameSpace, sameVisibility⟩
  by_cases empty : update.isEmpty = true
  · rw [if_pos empty, pure_eq_ok] at h
    subst h
    obtain ⟨space, visibility⟩ := between memo' written hid'
    simp only [UpdateMemo.isEmpty, Bool.and_eq_true, Option.isNone_iff_eq_none,
      Bool.not_eq_true'] at empty
    refine ⟨⟨users, spaces, members, shares⟩, ?_, ?_⟩
    · simp [UpdateMemo.apply, space, empty]
    · simp [UpdateMemo.apply, visibility, empty]
  · rw [if_neg empty] at h
    simp only [bind_eq_ok, pure_eq_ok] at h
    obtain ⟨memos, hmemos, rfl⟩ := h
    obtain ⟨row, hrow, rfl⟩ := (Keyed.Table.mem_update (of_constrained hmemos)).mp written
    have target : row.id = update.id := by
      by_contra other
      rw [if_neg (by simpa using other)] at hid'
      exact other hid'
    obtain ⟨space, visibility⟩ := between row hrow target
    rw [if_pos (by simpa using target)]
    refine ⟨⟨users, spaces, members, shares⟩, ?_, ?_⟩
    · simp only [UpdateMemo.apply, space]
    · simp only [UpdateMemo.apply, visibility]

/-! ### What the validator has checked -/

/-- The part of an acceptance that the invariants rest on, in terms of the snapshot. -/
structure Accepted (policy : MemoWritePolicy) (update : UpdateMemo) (snapshot : MemoWriteSnapshot) :
    Prop where
  authority : snapshot.creatorID = policy.actorUserID ∨ (policy.adminOverride = true ∧
    (snapshot.actorInstanceAdmin = true ∨ snapshot.sourceMemberAdmin = true))
  target : update.spaceID.isSome = true →
    SpaceWriteAllowed snapshot.targetSpaceAccessMode snapshot.targetMemberActive = true
  placed : resultVisibility (some update) snapshot.visibility = .SpaceAudience →
    resultSpaceID (some update) snapshot.spaceID ≠ none
  unshared : update.visibility = some .SpaceAudience → snapshot.hasActiveShare = false

theorem accepted_of_valid {policy : MemoWritePolicy} {update : UpdateMemo}
    {snapshot : MemoWriteSnapshot}
    (h : ValidateMemoWriteSnapshot policy (some update) snapshot = .ok ()) :
    Accepted policy update snapshot := by
  simp only [ValidateMemoWriteSnapshot, bind_eq_ok, require_eq_ok, onlyIf_eq_ok] at h
  obtain ⟨_, -, _, authority, _, -, _, -, _, -, _, -, _, -, _, target, _, -, _, -, _, -, _, placed,
    _, -, unshared⟩ := h
  refine ⟨?_, ?_, ?_, ?_⟩
  · simpa using authority
  · intro moved
    obtain ⟨_, -, allowed⟩ := target (by simpa using moved)
    exact allowed
  · intro audience homeless
    rw [audience, homeless] at placed
    cases placed
  · intro audience
    simpa [audience] using unshared

/-- A Space the snapshot lets the actor write to is one they may write to. -/
theorem mayWrite_of_policy {state : State} {spaceID actorUserID : Int}
    (allowed : SpaceWriteAllowed (memoPolicySpaceState state spaceID actorUserID).accessMode
      (memoPolicySpaceState state spaceID actorUserID).memberActive = true) :
    MayWrite state actorUserID spaceID := by
  rw [memoPolicySpaceState] at allowed
  cases found : state.spaces.find? spaceID with
  | none =>
      rw [found] at allowed
      exact nomatch allowed
  | some space =>
      rw [found] at allowed
      obtain ⟨hspace, hid⟩ := Keyed.Table.find?_eq_some.mp found
      refine ⟨space, hspace, hid, ?_⟩
      simp only [SpaceWriteAllowed, Bool.or_eq_true, Option.some.injEq, decide_eq_true_eq] at allowed
      rcases allowed with (member | isPublic) | isAuthenticated
      · rw [Keyed.Table.any_head?_select (fun sm row => by
          simp only [Bool.and_eq_true] at row; exact row.2), Keyed.Table.any_eq_true] at member
        obtain ⟨sm, hsm, row⟩ := member
        simp only [Bool.and_eq_true, decide_eq_true_eq] at row
        exact .inr (.inr ⟨sm, hsm, row.1.1.1, row.1.1.2, row.1.2, row.2⟩)
      · exact .inl isPublic
      · exact .inr (.inl isAuthenticated)

theorem admin_of_policy {state : State} {spaceID actorUserID : Int}
    (admin : (memoPolicySpaceState state spaceID actorUserID).memberAdmin = true) :
    ∃ sm ∈ state.members, sm.spaceID = spaceID ∧ sm.userID = actorUserID ∧ sm.status = .Active ∧
      sm.role = .Admin := by
  rw [memoPolicySpaceState] at admin
  cases found : state.spaces.find? spaceID with
  | none =>
      rw [found] at admin
      exact nomatch admin
  | some space =>
      rw [found] at admin
      obtain ⟨sm, head, role⟩ := Option.any_eq_true _ _ |>.mp admin
      have row := List.mem_of_mem_head? head
      simp only [Keyed.Table.mem_select, Bool.and_eq_true, decide_eq_true_eq] at row
      exact ⟨sm, row.1, row.2.1.1.1, row.2.1.1.2, row.2.1.2, by simpa using role⟩

/-- What `validateMemoWrite` accepts: an active actor, a memo that is not deleted, and the
validator's checks on the snapshot of the two. -/
theorem accepted_of_validateMemoWrite {state : State} {now : Int} {policy : MemoWritePolicy}
    {update : UpdateMemo} {memo : MemoRow} (stored : memo ∈ state.memos) (hid : memo.id = update.id)
    (h : validateMemoWrite state now update.id policy (some update) = .ok ()) :
    ∃ actor ∈ state.users, actor.id = policy.actorUserID ∧ actor.rowStatus = .Normal ∧
      Accepted policy update
        (loadSnapshot state now policy.actorUserID actor memo (some update)) := by
  simp only [validateMemoWrite, bind_eq_ok, orElse_eq_ok, require_eq_ok, decide_eq_true_eq] at h
  obtain ⟨actor, found, _, normal, current, hcurrent, valid⟩ := h
  obtain ⟨hactor, hactorID⟩ := Keyed.Table.find?_eq_some.mp found
  have same : current = memo := by
    rw [policyMemo, Option.filter_eq_some_iff] at hcurrent
    obtain ⟨hrow, hrid⟩ := Keyed.Table.find?_eq_some.mp hcurrent.1
    exact Keyed.Table.eq_of_key hrow stored (hrid.trans hid.symm)
  rw [same] at valid
  exact ⟨actor, hactor, hactorID, normal, accepted_of_valid valid⟩

/-! ### The result -/

/-- **When the written memo satisfies the write invariants.**

For every database, policy and update that the driver's validation accepts, the row that
is written satisfies all of the invariants if and only if the update does not both name a
Space and clear it, and does not leave unset the audience of a `SPACE` memo that has an
active share. -/
theorem write_invariants_iff (state state' : State) (now : Int) (policy : MemoWritePolicy)
    (update : UpdateMemo) (memo memo' : MemoRow)
    (stored : memo ∈ state.memos) (hid : memo.id = update.id)
    (accepted : validateMemoWrite state now update.id policy (some update) = .ok ())
    (applied : applyMemoUpdate state now update = .ok state')
    (written : memo' ∈ state'.memos) (hid' : memo'.id = update.id) :
    WriteInvariants state' now policy update memo memo' ↔
      ¬ (update.spaceID.isSome = true ∧ update.clearSpace = true) ∧
      ¬ (memo.visibility = .SpaceAudience ∧ update.visibility = none ∧
        hasActiveShare state now memo.id = true) := by
  obtain ⟨same, hspace, hvisibility⟩ := applyMemoUpdate_spec applied stored hid written hid'
  obtain ⟨actor, hactor, hactorID, normal, checks⟩ :=
    accepted_of_validateMemoWrite stored hid accepted
  have shares : hasActiveShare state' now memo'.id = hasActiveShare state now memo.id := by
    rw [hasActiveShare, hasActiveShare, same.shares, hid', hid]
  constructor
  · intro invariants
    refine ⟨?_, ?_⟩
    · rintro ⟨moved, cleared⟩
      have predicted := invariants.predicted.1
      rw [hspace, UpdateMemo.apply, resultSpaceID] at predicted
      simp only [cleared, moved, if_true] at predicted
      rw [← predicted] at moved
      exact nomatch moved
    · rintro ⟨audience, unset, shared⟩
      have unshared := invariants.unshared (by rw [hvisibility, UpdateMemo.apply, unset]; exact audience)
      rw [shares, shared] at unshared
      exact nomatch unshared
  · rintro ⟨consistent, watched⟩
    -- The two orders of reading the update agree when it does not ask for both.
    have predicted : memo'.spaceID = resultSpaceID (some update) memo.spaceID := by
      rw [hspace, UpdateMemo.apply, resultSpaceID]
      by_cases cleared : update.clearSpace = true
      · have unmoved : ¬ update.spaceID.isSome = true := fun moved => consistent ⟨moved, cleared⟩
        simp only [cleared, unmoved, if_true]
        rfl
      · simp only [cleared]
        rfl
    have predicted' : memo'.visibility = resultVisibility (some update) memo.visibility := by
      rw [hvisibility]
      rfl
    refine ⟨?_, ?_, ?_, ?_, predicted, predicted'⟩
    · intro audience
      rw [predicted]
      exact checks.placed (predicted' ▸ audience)
    · intro spaceID placed
      rw [predicted, resultSpaceID] at placed
      by_cases moved : update.spaceID.isSome = true
      · right
        rw [if_pos moved] at placed
        have allowed := checks.target moved
        simp only [loadSnapshot, Option.bind_some, placed, Option.map_some, Option.getD_some]
          at allowed
        obtain ⟨space, hspace, rest⟩ := mayWrite_of_policy allowed
        exact ⟨space, same.spaces ▸ hspace, same.members ▸ rest⟩
      · left
        simp only [moved, Bool.false_eq_true, if_false] at placed
        split at placed
        · exact nomatch placed
        · exact placed
    · refine ⟨actor, same.users ▸ hactor, hactorID, normal, ?_⟩
      rcases checks.authority with creator | ⟨override, power⟩
      · exact .inl (creator.trans hactorID.symm)
      · refine .inr ⟨override, ?_⟩
        rcases power with instance' | member
        · exact .inl (of_decide_eq_true instance')
        · right
          rw [same.members]
          cases placed : memo.spaceID with
          | none =>
              simp only [loadSnapshot, placed] at member
              exact nomatch member
          | some spaceID =>
              simp only [loadSnapshot, placed, Option.map_some, Option.getD_some] at member
              obtain ⟨sm, hsm, here, user, active, role⟩ := admin_of_policy member
              exact ⟨sm, hsm, by rw [here], user.trans hactorID.symm, active, role⟩
    · intro audience
      rw [shares]
      rw [predicted', resultVisibility] at audience
      cases given : update.visibility with
      | none =>
          rw [Option.bind_some, given, Option.getD_none] at audience
          by_contra shared
          exact watched ⟨audience, given, by simpa using shared⟩
      | some visibility =>
          rw [Option.bind_some, given, Option.getD_some] at audience
          have unshared := checks.unshared (by rw [given, audience])
          simpa [loadSnapshot, given, audience] using unshared

/-! ### Two updates of one memo

Ada has a memo for the members of a Space.  Withdrawing it to herself is an update with
the invariants.  An update that names its Space and clears it at once is accepted by the
store, and leaves a memo for the members of no Space.
-/

def adaMemo : MemoRow := .withDefaults 1 "plans" 1 .SpaceAudience (some 1)

def adaDatabase : State where
  users := ⟨[.withDefaults 1 "ada"], by decide, by decide⟩
  spaces := ⟨[⟨1, "plans", none, "Plans", "", "", .InviteOnly, true⟩], by decide, by decide⟩
  members := ⟨[⟨1, 1, .Active, .Admin⟩], by decide, by decide⟩
  memos := ⟨[adaMemo], by decide, by decide⟩
  shares := Keyed.Table.empty
  revisions := Keyed.Table.empty
  spaceSequence := 1
  revisionSequence := 0
  allowsAnonymousAccess := false

def adaPolicy : MemoWritePolicy :=
  { actorUserID := 1, adminOverride := false, lifecycleOnly := false, creatingShare := false }

def adaUpdate (visibility : Option Visibility) (spaceID : Option Int) (clearSpace : Bool) :
    UpdateMemo :=
  { revisionLimit := none, revisionForce := false, id := 1, uid := none, createdTs := none,
    updatedTs := none, rowStatus := none, content := none, visibility, pinned := none,
    payload := none, spaceID, clearSpace, policy := some adaPolicy }

theorem write_invariants_iff_withdrawn :
    WriteInvariants { adaDatabase with
        memos := ⟨[{ adaMemo with visibility := .Private, spaceID := none }], by decide, by decide⟩ }
      0 adaPolicy (adaUpdate (some .Private) none true) adaMemo
      { adaMemo with visibility := .Private, spaceID := none } :=
  (write_invariants_iff adaDatabase _ 0 adaPolicy (adaUpdate (some .Private) none true) adaMemo _
    List.mem_cons_self rfl rfl rfl List.mem_cons_self rfl).mpr
    ⟨by decide, fun h => nomatch h.2.1⟩

theorem named_and_cleared_unplaced :
    ∃ state', updateMemo (fun _ => true) adaDatabase 0 (adaUpdate none (some 1) true) = .ok state' ∧
      validateMemoWrite adaDatabase 0 1 adaPolicy (some (adaUpdate none (some 1) true)) = .ok () ∧
      applyMemoUpdate adaDatabase 0 (adaUpdate none (some 1) true) = .ok state' ∧
      ∃ memo' ∈ state'.memos, memo'.id = 1 ∧ memo'.visibility = .SpaceAudience ∧
        memo'.spaceID = none ∧
        ¬ WriteInvariants state' 0 adaPolicy (adaUpdate none (some 1) true) adaMemo memo' :=
  ⟨{ adaDatabase with memos := ⟨[{ adaMemo with spaceID := none }], by decide, by decide⟩ },
    rfl, rfl, rfl, { adaMemo with spaceID := none }, List.mem_cons_self, rfl, rfl, rfl,
    fun invariants => invariants.placed rfl rfl⟩

end Memos.Store

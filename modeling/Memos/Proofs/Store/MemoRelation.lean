/-
The memos a user may refer to are not the memos the user may read.

The endpoint check and the read policy agree on most of their product: who is active,
deleted memos, every audience of a memo in no Space, the author's archived memos.  They
part in two places.  The check never looks at the creator of the memo, so a memo whose
creator is gone can still be referred to.  And of a Space it knows only whether the user
is a member: an open Space, whose memos every signed-in user reads, is closed to it, and
so is the author's own archived memo in a Space the author has left.

Both sides are Boolean combinations of the same facts once the lookups are brought
together, and the difference of the two is the gap stated here.
-/
import Memos.Store.MemoRelation
import Memos.Proofs.Access.Memo

namespace Memos.Store

open Access

/-! ### The check over the facts -/

def creatorThere (state : State) (memo : MemoRow) : Bool :=
  (getUser state memo.creatorID).any fun u => u.rowStatus = .Normal || u.rowStatus = .Archived

def memberThere (state : State) (memo : MemoRow) (userID : Int) : Bool :=
  memo.spaceID.any fun spaceID => isMember state spaceID userID

/-- What the check asks of a memo, for an active user. -/
def referable (state : State) (memo : MemoRow) (userID : Int) : Bool :=
  (decide (memo.rowStatus = .Normal)
      || (decide (memo.rowStatus = .Archived) && decide (memo.creatorID = userID)))
    && (decide (memo.visibility = .Public) || decide (memo.visibility = .Protected)
      || (decide (memo.visibility = .Private) && decide (memo.creatorID = userID))
      || (decide (memo.visibility = .SpaceAudience) && (spaceOf state memo).isSome
        && memberThere state memo userID))

/-- The sequence of refusals as one condition on the snapshot. -/
theorem validateEndpointRead_eq_ok (snapshot : MemoRelationEndpointSnapshot) :
    ValidateMemoRelationEndpointRead snapshot = .ok () ↔
      snapshot.actorActive = true ∧ 0 < snapshot.endpointID ∧
      (snapshot.endpointRowStatus = .Normal ∨ (snapshot.endpointRowStatus = .Archived ∧
        snapshot.endpointCreatorID = snapshot.actorUserID)) ∧
      (snapshot.endpointVisibility = .Public ∨ snapshot.endpointVisibility = .Protected ∨
        (snapshot.endpointVisibility = .Private ∧
          snapshot.endpointCreatorID = snapshot.actorUserID) ∨
        (snapshot.endpointVisibility = .SpaceAudience ∧
          (snapshot.endpointSpaceID.isSome && snapshot.endpointSpaceExists) = true ∧
          snapshot.endpointMemberActive = true)) := by
  unfold ValidateMemoRelationEndpointRead
  simp only [bind_eq_ok, require_eq_ok]
  cases snapshot.endpointRowStatus with
  | unrecognised => simp
  | Normal =>
      cases snapshot.endpointVisibility with
      | SpaceAudience =>
          cases snapshot.endpointSpaceID with
          | none => simp
          | some spaceID => simp [isValidVisibility]
      | _ => simp [isValidVisibility]
  | Archived =>
      cases snapshot.endpointVisibility with
      | SpaceAudience =>
          cases snapshot.endpointSpaceID with
          | none => simp
          | some spaceID => simp [isValidVisibility]
      | unrecognised => simp
      | _ => simp [isValidVisibility]

theorem sqliteSpaceMemberActive_eq (state : State) (spaceID userID : Int) :
    sqliteSpaceMemberActive state spaceID userID = isMember state spaceID userID := by
  rw [sqliteSpaceMemberActive, Keyed.Table.any_head?_select fun sm row => ?_]
  · refine Keyed.Table.any_congr fun sm _ => ?_
    simp only [SpaceMemberRole.isActiveMember, Bool.and_assoc]
  · simp only [Bool.and_eq_true] at row
    exact row.2

theorem any_space_id (state : State) (spaceID : Int) :
    (state.spaces.any fun space => decide (space.id = spaceID))
      = (getSpace state spaceID).isSome := by
  have key : (state.spaces.any fun space => decide (space.id = spaceID) && true)
      = (getSpace state spaceID).any fun _ => true := Keyed.Table.any_key
  simp only [Bool.and_true] at key
  rw [key]
  cases getSpace state spaceID with
  | none => rfl
  | some space => rfl

/-- The snapshot knows the Space and the membership the read policy looks up. -/
theorem endpointSnapshot_space (state : State) (userID : Int) (status : RowStatus)
    (memo : MemoRow) :
    ((endpointSnapshot state userID status memo).endpointSpaceID.isSome
        && (endpointSnapshot state userID status memo).endpointSpaceExists)
      = (spaceOf state memo).isSome ∧
    ((spaceOf state memo).isSome = true →
      (endpointSnapshot state userID status memo).endpointMemberActive
        = memberThere state memo userID) := by
  unfold endpointSnapshot spaceOf memberThere
  cases memo.spaceID with
  | none => exact ⟨rfl, fun no => absurd no Bool.false_ne_true⟩
  | some spaceID =>
      dsimp only
      rw [any_space_id, sqliteSpaceMemberActive_eq, Option.bind_some, Option.any_some]
      refine ⟨Bool.true_and _, fun found => ?_⟩
      rw [found, Bool.true_and]

theorem endpointRead_eq_ok (state : State) (userID : Int) (status : RowStatus) (memo : MemoRow) :
    ValidateMemoRelationEndpointRead (endpointSnapshot state userID status memo) = .ok () ↔
      status = .Normal ∧ 0 < memo.id ∧ referable state memo userID = true := by
  obtain ⟨placed, member⟩ := endpointSnapshot_space state userID status memo
  have fields : ∀ snapshot, snapshot = endpointSnapshot state userID status memo →
      snapshot.actorUserID = userID ∧ snapshot.actorActive = decide (status = .Normal) ∧
      snapshot.endpointID = memo.id ∧ snapshot.endpointCreatorID = memo.creatorID ∧
      snapshot.endpointRowStatus = memo.rowStatus ∧
      snapshot.endpointVisibility = memo.visibility := by
    rintro snapshot rfl
    unfold endpointSnapshot
    cases memo.spaceID with
    | none => exact ⟨rfl, rfl, rfl, rfl, rfl, rfl⟩
    | some spaceID => exact ⟨rfl, rfl, rfl, rfl, rfl, rfl⟩
  obtain ⟨actor, active, id, creator, rowStatus, visibility⟩ := fields _ rfl
  rw [validateEndpointRead_eq_ok, actor, active, id, creator, rowStatus, visibility, placed,
    decide_eq_true_eq, referable]
  refine and_congr_right fun _ => and_congr_right fun _ => ?_
  cases found : (spaceOf state memo).isSome with
  | false => cases memo.visibility <;> simp
  | true =>
      rw [member found]
      cases memo.visibility <;> simp

/-! ### The gap -/

/-- The creator is gone, and the audience of the memo does not depend on who it was. -/
def orphaned (state : State) (userID : Int) (memo : MemoRow) : Bool :=
  !creatorThere state memo && decide (memo.rowStatus = .Normal)
    && (decide (memo.visibility = .Public) || decide (memo.visibility = .Protected)
      || (decide (memo.visibility = .SpaceAudience) && (spaceOf state memo).isSome
        && memberThere state memo userID))

/-- The memo is for a Space that the user is not a member of, and the Space is open or the
memo is the user's own and archived. -/
def outsideOpenSpace (state : State) (userID : Int) (memo : MemoRow) : Bool :=
  creatorThere state memo && decide (memo.visibility = .SpaceAudience)
    && !memberThere state memo userID
    && ((decide (memo.rowStatus = .Normal) && (spaceOf state memo).any fun space =>
          decide (space.accessMode = .Public) || decide (space.accessMode = .Authenticated))
      || (decide (memo.rowStatus = .Archived) && decide (memo.creatorID = userID)
        && (spaceOf state memo).isSome))

def endpointGap (state : State) (userID : Int) (memo : MemoRow) : Bool :=
  decide (memo.deletedTs = none) && state.normalUser userID
    && (orphaned state userID memo || outsideOpenSpace state userID memo)

def readable (state : State) (memo : MemoRow) (userID : Int) : Bool :=
  (openAudience state memo || userAudience state memo userID) && consistent state memo
    && (decide (memo.rowStatus = .Normal)
      || (decide (memo.rowStatus = .Archived) && decide (memo.creatorID = userID)))

theorem creatorThere_of_author {state : State} {userID : Int} {memo : MemoRow}
    (normal : state.normalUser userID = true) (author : memo.creatorID = userID) :
    creatorThere state memo = true := by
  have creator := any_creator state memo fun u => u.rowStatus = .Normal || u.rowStatus = .Archived
  rw [creatorThere, ← creator]
  obtain ⟨u, hu, row⟩ := Keyed.Table.any_eq_true.mp normal
  simp only [Bool.and_eq_true, decide_eq_true_eq] at row
  refine Keyed.Table.any_eq_true.mpr ⟨u, hu, ?_⟩
  simp [row.1, row.2, author]

/-- The two policies, one against the other, over the facts they share. -/
theorem referable_eq_readable_iff {state : State} {userID : Int} {memo : MemoRow}
    (normal : state.normalUser userID = true) :
    referable state memo userID = readable state memo userID ↔
      (orphaned state userID memo || outsideOpenSpace state userID memo) = false := by
  have author : memo.creatorID = userID → creatorThere state memo = true :=
    creatorThere_of_author normal
  unfold referable readable orphaned outsideOpenSpace openAudience userAudience consistent
  rw [← creatorThere, ← memberThere]
  generalize creatorThere state memo = creator at author ⊢
  generalize memberThere state memo userID = member
  have author' : decide (memo.creatorID = userID) = true → creator = true :=
    fun mine => author (of_decide_eq_true mine)
  generalize decide (memo.creatorID = userID) = mine at author' ⊢
  have modes : ∃ found isPublic isAuthenticated : Bool,
      (spaceOf state memo).isSome = found ∧
      ((spaceOf state memo).any fun space => decide (space.accessMode = .Public))
        = (found && isPublic) ∧
      ((spaceOf state memo).any fun space => decide (space.accessMode = .Authenticated)
        || decide (space.accessMode = .Public)) = (found && (isAuthenticated || isPublic)) ∧
      ((spaceOf state memo).any fun space => decide (space.accessMode = .Public)
        || decide (space.accessMode = .Authenticated))
        = (found && (isPublic || isAuthenticated)) := by
    cases spaceOf state memo with
    | none => exact ⟨false, false, false, rfl, rfl, rfl, rfl⟩
    | some space =>
        exact ⟨true, decide (space.accessMode = .Public), decide (space.accessMode = .Authenticated),
          rfl, rfl, rfl, rfl⟩
  obtain ⟨found, isPublic, isAuthenticated, some', isPublic', readable', open'⟩ := modes
  simp only [some', isPublic', open', readable']
  clear author some' isPublic' open' readable'
  revert creator member mine found isPublic isAuthenticated
  cases memo.visibility <;> cases memo.rowStatus <;> decide

/-! ### The result -/

/-- Nobody reads anything as a user who is not active. -/
theorem not_allowed_inactive (state : State) (memo : Option MemoRow) {viewer : UserRow}
    (inactive : viewer.rowStatus ≠ .Normal) :
    (CheckMemoReadContext (ResolveMemoReadContext state memo (some viewer) false none)).allowed
      = false := by
  cases memo with
  | none => rfl
  | some memo =>
      rw [allowed_resolved state memo (some viewer) false false false (by simp [inactive]) rfl]
      have anonymous : (ResolveMemoReadContext state (some memo) (some viewer) false
        none).allowAnonymous = false := rfl
      simp [admitted, anonymous]

/-- **When the endpoint check and the read policy agree.**

For every database, every user and every memo row in it, the driver lets the user refer
to the memo exactly when the policy lets the user read it, except in the gap: a memo
without a creator, or an open Space (or an archived memo of one's own) seen from outside.
In the gap they disagree. -/
theorem endpoint_agrees_iff (state : State) (viewer : UserRow) (memo : MemoRow)
    (known : viewer ∈ state.users) (stored : memo ∈ state.memos) (positive : 0 < memo.id) :
    ((validateSQLiteMemoRelationEndpoints state viewer.id [memo.id] = .ok () ↔
        (CheckMemoReadContext (ResolveMemoReadContext state (getMemo state memo.uid) (some viewer)
          (allowAnonymous state (some viewer)) none)).allowed = true)) ↔
      endpointGap state viewer.id memo = false := by
  have actor : state.users.find? viewer.id = some viewer :=
    Keyed.Table.find?_eq_some.mpr ⟨known, rfl⟩
  have endpoint : state.memos.find? memo.id = some memo :=
    Keyed.Table.find?_eq_some.mpr ⟨stored, rfl⟩
  have checked : validateSQLiteMemoRelationEndpoints state viewer.id [memo.id] = .ok () ↔
      memo.deletedTs = none ∧ viewer.rowStatus = .Normal ∧
        referable state memo viewer.id = true := by
    simp only [validateSQLiteMemoRelationEndpoints, validateSQLiteMemoRelationEndpoint, actor,
      bind_eq_ok, orElse_eq_ok, exists_eq_left', getSQLiteRelationMemoState, endpoint,
      List.forM_eq_forM, List.forM_cons, List.forM_nil, Option.filter_eq_some_iff,
      decide_eq_true_eq, Option.some.injEq]
    constructor
    · rintro ⟨_, ⟨_, ⟨rfl, live⟩, ok⟩, -⟩
      obtain ⟨normal, -, allowed⟩ := (endpointRead_eq_ok state viewer.id _ _).mp ok
      exact ⟨live, normal, allowed⟩
    · rintro ⟨live, normal, allowed⟩
      exact ⟨(), ⟨memo, ⟨rfl, live⟩,
        (endpointRead_eq_ok state viewer.id _ _).mpr ⟨normal, positive, allowed⟩⟩, rfl⟩
  rw [checked]
  rw [getMemo_uid stored]
  show (_ ↔ (CheckMemoReadContext (ResolveMemoReadContext state _ _ false none)).allowed = true) ↔ _
  unfold endpointGap
  by_cases live : memo.deletedTs = none
  · rw [if_pos live, decide_eq_true live, Bool.true_and]
    by_cases normal : viewer.rowStatus = .Normal
    · have normal' : state.normalUser viewer.id = true :=
        Keyed.Table.any_eq_true.mpr ⟨viewer, known, by simp [normal]⟩
      have allowed := allowed_user state memo viewer normal normal'
      rw [← readable] at allowed
      rw [allowed, normal', Bool.true_and, ← referable_eq_readable_iff normal']
      have allowed' : memo.deletedTs = none ∧ viewer.rowStatus = .Normal ∧
          referable state memo viewer.id = true ↔ referable state memo viewer.id = true :=
        ⟨fun h => h.2.2, fun h => ⟨live, normal, h⟩⟩
      exact (iff_congr allowed' Iff.rfl).trans Bool.eq_iff_iff.symm
    · have inactive : state.normalUser viewer.id = false := by
        refine Keyed.Table.any_eq_false.mpr fun u hu => ?_
        by_contra row
        simp only [Bool.not_eq_false, Bool.and_eq_true, decide_eq_true_eq] at row
        rw [Keyed.Table.eq_of_key hu known row.1] at row
        exact normal row.2
      rw [not_allowed_inactive state _ normal, inactive, Bool.false_and]
      exact iff_of_true (iff_of_false (fun h => normal h.2.1) Bool.false_ne_true) rfl
  · rw [if_neg live, decide_eq_false live, Bool.false_and, Bool.false_and]
    exact iff_of_true (iff_of_false (fun h => live h.1) Bool.false_ne_true) rfl

/-! ### A Space seen from outside -/

def openSpaceMemo : MemoRow := .withDefaults 1 "minutes" 1 .SpaceAudience (some 1)

def openSpaceDatabase : State where
  users := ⟨[.withDefaults 1 "eve", .withDefaults 2 "max"], by decide, by decide⟩
  spaces := ⟨[⟨1, "board", none, "Board", "", "", .Authenticated, true⟩], by decide, by decide⟩
  members := ⟨[⟨1, 1, .Active, .User⟩], by decide, by decide⟩
  memos := ⟨[openSpaceMemo], by decide, by decide⟩
  shares := Keyed.Table.empty
  revisions := Keyed.Table.empty
  spaceSequence := 1
  revisionSequence := 0
  allowsAnonymousAccess := false

theorem endpoint_agrees_iff_member :
    validateSQLiteMemoRelationEndpoints openSpaceDatabase 1 [1] = .ok () ↔
      (CheckMemoReadContext (ResolveMemoReadContext openSpaceDatabase
        (getMemo openSpaceDatabase "minutes") (some (.withDefaults 1 "eve"))
        (allowAnonymous openSpaceDatabase (some (.withDefaults 1 "eve"))) none)).allowed = true :=
  (endpoint_agrees_iff openSpaceDatabase (.withDefaults 1 "eve") openSpaceMemo List.mem_cons_self
    List.mem_cons_self (by decide)).mpr (by decide)

theorem open_space_memo_not_referable :
    fetchCurrentUser openSpaceDatabase 2 = .ok (some (.withDefaults 2 "max")) ∧
      (UserRow.withDefaults 2 "max").role ≠ .Admin ∧
      (CheckMemoReadContext (ResolveMemoReadContext openSpaceDatabase
        (getMemo openSpaceDatabase "minutes") (some (.withDefaults 2 "max"))
        (allowAnonymous openSpaceDatabase (some (.withDefaults 2 "max"))) none)).allowed = true ∧
      validateSQLiteMemoRelationEndpoints openSpaceDatabase 2 [1] = .error .MemoPermissionDenied :=
  ⟨rfl, by decide, by decide, rfl⟩

end Memos.Store

/-
A listing shows a memo exactly when reading it would be allowed.

The two policies share no code.  The predicate of a query is a disjunction of audiences
and a conjunction of conditions on the row, with every lookup a subquery; the read
policy is a sequence of refusals over facts that were looked up one by one.  They are
brought together in two moves.

First the subqueries become the lookups: the primary keys make `EXISTS` over a table
the same question as a condition on the row found, and the membership subquery, which
asks less than `GetSpaceMember`, is the same question once the Space is known to exist
and the viewer to be active.  After that both sides are Boolean combinations of the same
few facts, and they are compared audience by audience and status by status.
-/
import Memos.Store.MemoList

namespace Memos.Store

open Kleene Access

/-! ### Subqueries are lookups -/

@[simp] theorem isTrue_existsIn {Key Row : Type} {schema : Keyed.Schema Key Row}
    (t : Keyed.Table schema) (p : Row → Truth) :
    (existsIn t p).isTrue = t.any fun r => (p r).isTrue :=
  Truth.isTrue_ofBool _

@[simp] theorem isTrue_equals {α : Type} [DecidableEq α] (a : α) (b : Option α) :
    (equals a b).isTrue = decide (b = some a) := by
  cases b with
  | none => rfl
  | some b =>
      rw [equals, Truth.isTrue_ofBool]
      exact decide_eq_decide.mpr ⟨fun h => by rw [h], fun h => (Option.some.inj h).symm⟩

def spaceOf (state : State) (memo : MemoRow) : Option SpaceRow := memo.spaceID.bind (getSpace state)

theorem any_space (state : State) (memo : MemoRow) (q : SpaceRow → Bool) :
    (state.spaces.any fun space => decide (memo.spaceID = some space.id) && q space)
      = (spaceOf state memo).any q := by
  rw [spaceOf]
  cases memo.spaceID with
  | none =>
      rw [Keyed.Table.any_eq_false.mpr fun _ _ => by simp]
      rfl
  | some id =>
      rw [Option.bind_some, getSpace, ← Keyed.Table.any_key]
      simp only [Option.some.injEq, SpaceRow.schema, eq_comm]

theorem any_creator (state : State) (memo : MemoRow) (q : UserRow → Bool) :
    (state.users.any fun user => decide (user.id = memo.creatorID) && q user)
      = (getUser state memo.creatorID).any q := by
  rw [getUser, ← Keyed.Table.any_key]
  rfl

def isMember (state : State) (spaceID userID : Int) : Bool :=
  state.members.any fun member =>
    decide (member.spaceID = spaceID) && decide (member.userID = userID)
      && (decide (member.status = .Active) && member.role.isActiveMember)

/-- What `GetSpaceMember` asks besides is known of a Space that exists and an active user. -/
theorem getSpaceMember_any {state : State} {spaceID userID : Int} {space : SpaceRow}
    (found : getSpace state spaceID = some space) (normal : state.normalUser userID = true) :
    ((getSpaceMember state spaceID userID).any fun sm => sm.role.isActiveMember)
      = isMember state spaceID userID := by
  obtain ⟨hspace, hid⟩ := Keyed.Table.find?_eq_some.mp found
  have here : (state.spaces.any fun s => decide (s.id = spaceID)) = true :=
    Keyed.Table.any_eq_true.mpr ⟨space, hspace, decide_eq_true hid⟩
  rw [getSpaceMember, Keyed.Table.any_head?_select fun sm row => ?_]
  · refine Keyed.Table.any_congr fun sm _ => ?_
    by_cases this : sm.spaceID = spaceID ∧ sm.userID = userID
    · obtain ⟨rfl, rfl⟩ := this
      simp [here, normal]
    · have neither : (decide (sm.spaceID = spaceID) && decide (sm.userID = userID)) = false := by
        simpa using this
      rw [neither, Bool.false_and, Bool.and_assoc, neither, Bool.and_false]
  · simp only [Bool.and_eq_true] at row
    exact row.1.1.1.1.2

/-- The memo a listing reads is the memo `GetMemo` finds, unless it is deleted. -/
theorem getMemo_uid {state : State} {memo : MemoRow} (hm : memo ∈ state.memos) :
    getMemo state memo.uid = if memo.deletedTs = none then some memo else none := by
  have same : ∀ other ∈ state.memos, other.uid = memo.uid → other = memo := by
    intro other hother huid
    refine Keyed.Table.eq_of_clash hother hm ?_ ?_
    · simp [MemoRow.schema, huid]
    · simp [MemoRow.schema, huid]
  rw [getMemo]
  cases found : (state.memos.select fun other =>
      decide (other.deletedTs = none) && decide (other.uid = memo.uid)).head? with
  | none =>
      rw [List.head?_eq_none_iff] at found
      rw [if_neg]
      intro live
      have : memo ∈ state.memos.select fun other =>
          decide (other.deletedTs = none) && decide (other.uid = memo.uid) :=
        Keyed.Table.mem_select.mpr ⟨hm, by simp [live]⟩
      rw [found] at this
      exact absurd this List.not_mem_nil
  | some other =>
      obtain ⟨hother, row⟩ := Keyed.Table.mem_select.mp (List.mem_of_mem_head? found)
      simp only [Bool.and_eq_true, decide_eq_true_eq] at row
      obtain rfl := same other hother row.2
      rw [if_pos row.1]

/-! ### The predicate over the facts -/

/-- The condition that the row is consistent, whoever asks. -/
def consistent (state : State) (memo : MemoRow) : Bool :=
  isValidVisibility memo.visibility
    && (getUser state memo.creatorID).any (fun u => u.rowStatus = .Normal || u.rowStatus = .Archived)
    && (memo.visibility ≠ .SpaceAudience || (spaceOf state memo).isSome)

theorem isTrue_validMemo (state : State) (memo : MemoRow) :
    (validMemo state memo).isTrue = consistent state memo := by
  have exists_space : (state.spaces.any fun space => decide (memo.spaceID = some space.id))
      = (spaceOf state memo).isSome := by
    have := any_space state memo fun _ => true
    simp only [Bool.and_true] at this
    rw [this]
    cases spaceOf state memo <;> rfl
  have placed : (spaceOf state memo).isSome = (memo.spaceID.isSome && (spaceOf state memo).isSome) := by
    rw [spaceOf]
    cases memo.spaceID <;> simp
  simp only [validMemo, Truth.isTrue_and, Truth.isTrue_or, Truth.isTrue_ofBool, isTrue_existsIn,
    isTrue_equals, any_creator, exists_space, ← placed, consistent, Bool.and_assoc]

/-- The audiences anybody the instance lets in belongs to. -/
def openAudience (state : State) (memo : MemoRow) : Bool :=
  decide (memo.visibility = .Public) || (decide (memo.visibility = .SpaceAudience)
    && (spaceOf state memo).any fun space => decide (space.accessMode = .Public))

def userAudience (state : State) (memo : MemoRow) (userID : Int) : Bool :=
  (decide (memo.rowStatus = .Archived) && decide (memo.creatorID = userID))
    || (decide (memo.visibility = .Private) && decide (memo.creatorID = userID))
    || decide (memo.visibility = .Protected)
    || (decide (memo.visibility = .SpaceAudience)
      && memo.spaceID.any fun spaceID => isMember state spaceID userID)
    || (decide (memo.visibility = .SpaceAudience) && (spaceOf state memo).any fun space =>
      space.accessMode = .Authenticated || space.accessMode = .Public)

theorem isTrue_publicClauses (state : State) (memo : MemoRow) :
    (publicClauses state memo).any Truth.isTrue = openAudience state memo := by
  simp only [publicClauses, List.any_cons, List.any_nil, Bool.or_false, Truth.isTrue_ofBool,
    Truth.isTrue_and, isTrue_existsIn, isTrue_equals, any_space, openAudience]

theorem isTrue_authenticatedClauses (state : State) (memo : MemoRow) (userID : Int) :
    (authenticatedClauses state true userID memo).any Truth.isTrue
      = userAudience state memo userID := by
  have member : (state.members.any fun member =>
      decide (memo.spaceID = some member.spaceID) && decide (member.userID = userID)
        && (decide (member.status = .Active) && member.role.isActiveMember))
      = memo.spaceID.any fun spaceID => isMember state spaceID userID := by
    cases memo.spaceID with
    | none => exact Keyed.Table.any_eq_false.mpr fun _ _ => by simp
    | some id => simp only [Option.some.injEq, Option.any_some, isMember, eq_comm]
  simp only [authenticatedClauses, if_true, List.cons_append, List.nil_append, List.any_cons,
    List.any_nil, Bool.or_false, Truth.isTrue_ofBool, Truth.isTrue_and, isTrue_existsIn,
    isTrue_equals, any_space, member, userAudience, Bool.or_assoc]

theorem isTrue_predicate_visitor (state : State) (allowPublic : Bool) (memo : MemoRow) :
    (sqliteMemoAccessPredicate state (newMemoAccessScope none allowPublic) memo).isTrue
      = (allowPublic && openAudience state memo && consistent state memo
        && decide (memo.rowStatus = .Normal) && decide (memo.deletedTs = none)) := by
  cases allowPublic with
  | false => rfl
  | true =>
      rw [sqliteMemoAccessPredicate]
      simp only [newMemoAccessScope, Option.map_none, if_true, List.append_nil]
      rw [if_neg (by simp [publicClauses])]
      simp only [Truth.isTrue_and, Truth.isTrue_any, Truth.isTrue_ofBool, isTrue_publicClauses,
        isTrue_validMemo, Bool.true_and]

theorem isTrue_predicate_user (state : State) (user : UserRow) (memo : MemoRow)
    (normal : state.normalUser user.id = true) :
    (sqliteMemoAccessPredicate state (newMemoAccessScope (some user) true) memo).isTrue
      = ((openAudience state memo || userAudience state memo user.id) && consistent state memo
        && (decide (memo.rowStatus = .Normal)
          || (decide (memo.rowStatus = .Archived) && decide (memo.creatorID = user.id)))
        && decide (memo.deletedTs = none)) := by
  rw [State.normalUser] at normal
  rw [sqliteMemoAccessPredicate]
  simp only [newMemoAccessScope, Option.map_some, if_true, Option.isSome_some]
  rw [if_neg (by simp [publicClauses])]
  simp only [Truth.isTrue_and, Truth.isTrue_or, Truth.isTrue_any, Truth.isTrue_ofBool,
    List.any_append, List.any_cons, List.any_nil, Bool.or_false, isTrue_existsIn,
    isTrue_publicClauses, isTrue_authenticatedClauses, isTrue_validMemo, normal, Bool.true_and]

/-! ### The read policy over the facts -/

def admitted (ctx : MemoReadContext) (memo : MemoRow) (active author : Bool) : Bool :=
  (decide (memo.visibility = .Public) && (ctx.allowAnonymous || active))
    || (decide (memo.visibility = .Protected) && active)
    || (decide (memo.visibility = .Private) && active && author)
    || (decide (memo.visibility = .SpaceAudience)
      && ((decide (ctx.spaceAccessMode = some .Public) && ctx.allowAnonymous)
        || (active && (ctx.viewerSpaceMember || decide (ctx.spaceAccessMode = some .Public)
          || decide (ctx.spaceAccessMode = some .Authenticated)))))

theorem allowed_checkAudience (ctx : MemoReadContext) (memo : MemoRow) (active author : Bool) :
    (checkAudience ctx memo active author).allowed = admitted ctx memo active author := by
  unfold checkAudience admitted MemoReadDecision.allowed
  cases memo.visibility with
  | Public => cases ctx.allowAnonymous <;> cases active <;> rfl
  | Protected => cases active <;> simp
  | Private => cases active <;> cases author <;> simp
  | SpaceAudience =>
      by_cases open' : ctx.spaceAccessMode = some .Public
      · cases ctx.allowAnonymous <;> cases active <;> simp [open']
      · by_cases signedIn : ctx.spaceAccessMode = some .Authenticated
        · cases active <;> simp [signedIn]
        · cases active <;> cases ctx.viewerSpaceMember <;> simp [open', signedIn]
  | unrecognised => simp

/-- The refusals in front of the audience, as one condition. -/
theorem allowed_check (ctx : MemoReadContext) (memo : MemoRow) (found : ctx.memo = some memo)
    (unshared : ctx.sharedMemoID = none) (active author : Bool)
    (hactive : ctx.viewer.any (fun viewer => decide (viewer.rowStatus = .Normal)) = active)
    (hauthor : (active && ctx.viewer.any fun viewer => decide (viewer.id = memo.creatorID)) = author) :
    (CheckMemoReadContext ctx).allowed
      = (ctx.creatorValid && isValidVisibility memo.visibility
        && (memo.visibility ≠ .SpaceAudience || (memo.spaceID.isSome && ctx.spaceValid))
        && ((decide (memo.rowStatus = .Archived) && author)
          || (decide (memo.rowStatus = .Normal) && admitted ctx memo active author))) := by
  rw [CheckMemoReadContext, found]
  simp only [hactive, hauthor, unshared]
  by_cases creator : ctx.creatorValid = true
  · by_cases valid : isValidVisibility memo.visibility = true
    · by_cases homeless : (decide (memo.visibility = .SpaceAudience)
          && (memo.spaceID.isNone || !ctx.spaceValid)) = true
      · have placed : (decide (memo.visibility ≠ .SpaceAudience)
            || (memo.spaceID.isSome && ctx.spaceValid)) = false := by
          revert homeless
          cases memo.spaceID <;> cases ctx.spaceValid <;> simp
        rw [if_neg (by simp [creator]), if_neg (by simp [valid]), if_pos homeless, placed,
          Bool.and_false, Bool.false_and]
        rfl
      · have placed : (decide (memo.visibility ≠ .SpaceAudience)
            || (memo.spaceID.isSome && ctx.spaceValid)) = true := by
          revert homeless
          cases memo.spaceID <;> cases ctx.spaceValid <;> simp
        rw [if_neg (by simp [creator]), if_neg (by simp [valid]), if_neg homeless, placed,
          creator, valid, Bool.true_and, Bool.true_and]
        cases status : memo.rowStatus with
        | Normal => simp [allowed_checkAudience]
        | Archived => cases author <;> simp [MemoReadDecision.allowed]
        | unrecognised => simp [MemoReadDecision.allowed]
    · rw [if_neg (by simp [creator]), if_pos (by simp [valid])]
      simp [valid, MemoReadDecision.allowed]
  · rw [if_pos (by simp [creator])]
    simp [creator, MemoReadDecision.allowed]

theorem creatorValid_eq (state : State) (creatorID : Int) :
    ((getUser state creatorID).any fun u =>
        decide (u.id = creatorID) && (u.rowStatus = .Normal || u.rowStatus = .Archived))
      = (getUser state creatorID).any fun u => u.rowStatus = .Normal || u.rowStatus = .Archived := by
  cases found : getUser state creatorID with
  | none => rfl
  | some u =>
      have hid : u.id = creatorID := (Keyed.Table.find?_eq_some.mp found).2
      simp [hid]

theorem mode_eq (space : Option SpaceRow) (mode : SpaceAccessMode) :
    decide (space.map SpaceRow.accessMode = some mode)
      = space.any fun space => decide (space.accessMode = mode) := by
  cases space with
  | none => rfl
  | some s => simp

theorem placed_eq (state : State) (memo : MemoRow) :
    (memo.spaceID.isSome && (memo.spaceID.isNone || (spaceOf state memo).isSome))
      = (spaceOf state memo).isSome := by
  rw [spaceOf]
  cases memo.spaceID with
  | none => rfl
  | some id => simp

/-- The policy on a resolved context is the consistency of the row, and then either the
author of an archived memo or an audience. -/
theorem allowed_resolved (state : State) (memo : MemoRow) (viewer : Option UserRow)
    (allowAnonymous active author : Bool)
    (hactive : viewer.any (fun viewer => decide (viewer.rowStatus = .Normal)) = active)
    (hauthor : (active && viewer.any fun viewer => decide (viewer.id = memo.creatorID)) = author) :
    (CheckMemoReadContext
        (ResolveMemoReadContext state (some memo) viewer allowAnonymous none)).allowed
      = (consistent state memo && ((decide (memo.rowStatus = .Archived) && author)
          || (decide (memo.rowStatus = .Normal)
            && admitted (ResolveMemoReadContext state (some memo) viewer allowAnonymous none)
                memo active author))) := by
  rw [allowed_check _ memo rfl rfl active author hactive hauthor]
  congr 1
  show (_ && _ && (_ || (_ && (memo.spaceID.isNone || (spaceOf state memo).isSome)))) = _
  rw [placed_eq, consistent, ← creatorValid_eq]
  congr 1
  exact Bool.and_comm _ _

theorem allowed_visitor (state : State) (memo : MemoRow) (allowAnonymous : Bool) :
    (CheckMemoReadContext (ResolveMemoReadContext state (some memo) none allowAnonymous none)).allowed
      = (allowAnonymous && openAudience state memo && consistent state memo
        && decide (memo.rowStatus = .Normal)) := by
  rw [allowed_resolved state memo none allowAnonymous false false rfl rfl]
  have mode : decide ((ResolveMemoReadContext state (some memo) none allowAnonymous none).spaceAccessMode
      = some .Public) = (spaceOf state memo).any fun space => decide (space.accessMode = .Public) :=
    mode_eq _ _
  have anonymous : (ResolveMemoReadContext state (some memo) none allowAnonymous none).allowAnonymous
      = allowAnonymous := rfl
  simp only [admitted, openAudience, mode, anonymous, Bool.or_false, Bool.and_false, Bool.false_and]
  cases allowAnonymous with
  | false => simp
  | true => simp [Bool.and_left_comm, Bool.and_comm]

theorem viewerSpaceMember_eq {state : State} {memo : MemoRow} {user : UserRow} {space : SpaceRow}
    (placed : spaceOf state memo = some space) (normal : user.rowStatus = .Normal)
    (normal' : state.normalUser user.id = true) (allowAnonymous : Bool) :
    (ResolveMemoReadContext state (some memo) (some user) allowAnonymous none).viewerSpaceMember
      = memo.spaceID.any fun spaceID => isMember state spaceID user.id := by
  obtain ⟨spaceID, assigned, found⟩ := Option.bind_eq_some_iff.mp placed
  have valid : (ResolveMemoReadFacts state (some memo)).spaceValid = true := by
    show (memo.spaceID.isNone || (spaceOf state memo).isSome) = true
    rw [placed, Option.isSome_some, Bool.or_true]
  have active : decide (user.rowStatus = .Normal) = true := decide_eq_true normal
  simp only [ResolveMemoReadContext, MemoReadFacts.withViewer, valid]
  simp only [ResolveMemoReadFacts, Option.bind_some, assigned, Option.any_some, active,
    Bool.true_and]
  exact getSpaceMember_any found normal'

theorem allowed_user (state : State) (memo : MemoRow) (user : UserRow)
    (normal : user.rowStatus = .Normal) (normal' : state.normalUser user.id = true) :
    (CheckMemoReadContext (ResolveMemoReadContext state (some memo) (some user) false none)).allowed
      = ((openAudience state memo || userAudience state memo user.id) && consistent state memo
        && (decide (memo.rowStatus = .Normal)
          || (decide (memo.rowStatus = .Archived) && decide (memo.creatorID = user.id)))) := by
  rw [allowed_resolved state memo (some user) false true (decide (memo.creatorID = user.id))
    (by simp [normal]) (by simp [eq_comm])]
  have mode : ∀ mode, decide ((ResolveMemoReadContext state (some memo) (some user) false
        none).spaceAccessMode = some mode)
      = (spaceOf state memo).any fun space => decide (space.accessMode = mode) :=
    fun mode => mode_eq _ mode
  have anonymous : (ResolveMemoReadContext state (some memo) (some user) false none).allowAnonymous
      = false := rfl
  simp only [admitted, openAudience, userAudience, mode, anonymous]
  cases hvisibility : memo.visibility with
  | SpaceAudience =>
      cases placed : spaceOf state memo with
      | none => simp [consistent, hvisibility, placed]
      | some space =>
          rw [viewerSpaceMember_eq placed normal normal']
          simp only [Option.any_some]
          generalize (memo.spaceID.any fun spaceID => isMember state spaceID user.id) = member
          generalize decide (space.accessMode = .Public) = isPublic
          generalize decide (space.accessMode = .Authenticated) = isAuthenticated
          generalize decide (memo.creatorID = user.id) = author
          generalize consistent state memo = valid
          revert member isPublic isAuthenticated author valid
          cases memo.rowStatus <;> decide
  | Public => simp [Bool.and_comm, Bool.or_comm]
  | Protected => simp [Bool.and_comm, Bool.or_comm]
  | Private =>
      generalize decide (memo.creatorID = user.id) = author
      generalize consistent state memo = valid
      revert author valid
      cases memo.rowStatus <;> simp
  | unrecognised => simp [consistent, hvisibility, isValidVisibility]

/-! ### The result -/

theorem normalUser_of_fetched {state : State} {authUserID : Int} {user : UserRow}
    (fetched : fetchCurrentUser state authUserID = .ok (some user)) :
    user.rowStatus = .Normal ∧ state.normalUser user.id = true := by
  rw [fetchCurrentUser] at fetched
  split at fetched
  · exact nomatch fetched
  · cases found : getUser state authUserID with
    | none =>
        rw [found] at fetched
        exact nomatch fetched
    | some u =>
        rw [found] at fetched
        simp only at fetched
        split at fetched
        · rename_i normal
          obtain rfl := Option.some.inj (Except.ok.inj fetched)
          obtain ⟨hu, hid⟩ := Keyed.Table.find?_eq_some.mp found
          exact ⟨normal, Keyed.Table.any_eq_true.mpr ⟨u, hu, by simp [normal]⟩⟩
        · exact nomatch fetched

/-- **The predicate of a listing and the read policy agree on every row.**

For every database, every caller (a visitor, or a user that authentication names) and
every memo row, the predicate built from the caller's scope selects the row exactly when
`CheckMemoReadContext` allows reading it, on the context that is resolved for the memo
`GetMemo` finds under its uid. -/
theorem listing_agrees_with_read (state : State) (authUserID : Int) (scope : MemoAccessScope)
    (viewer : Option UserRow) (context : MemoReadContext) (memo : MemoRow)
    (stored : memo ∈ state.memos)
    (resolved : resolveMemoAccessScope state authUserID = .ok (scope, viewer))
    (built : buildMemoReadContext state authUserID memo.uid none = .ok context) :
    (sqliteMemoAccessPredicate state scope memo).isTrue
      = (CheckMemoReadContext context).allowed := by
  rw [resolveMemoAccessScope] at resolved
  cases fetched : fetchCurrentUser state authUserID with
  | error e =>
      rw [fetched] at resolved
      exact nomatch resolved
  | ok currentUser =>
      rw [fetched] at resolved
      obtain ⟨rfl, rfl⟩ := Prod.mk.inj (Except.ok.inj resolved)
      rw [buildMemoReadContext, fetched, getMemo_uid stored] at built
      rw [← Except.ok.inj built]
      cases currentUser with
      | none =>
          simp only [Option.isNone_none, if_true, isTrue_predicate_visitor, allowAnonymous,
            Bool.true_and]
          by_cases live : memo.deletedTs = none
          · rw [if_pos live, allowed_visitor]
            simp [live]
          · rw [if_neg live]
            simp [live]
            rfl
      | some user =>
          obtain ⟨normal, normal'⟩ := normalUser_of_fetched fetched
          simp only [Option.isNone_some, Bool.false_eq_true, if_false, allowAnonymous,
            Bool.false_and, isTrue_predicate_user state user memo normal']
          by_cases live : memo.deletedTs = none
          · rw [if_pos live, allowed_user state memo user normal normal']
            simp [live]
          · rw [if_neg live]
            simp [live]
            rfl

def membersMemo : MemoRow := .withDefaults 1 "plans" 1 .SpaceAudience (some 1)

/-- An invite-only Space with the memo of one user and another user as its member. -/
def memberDatabase : State where
  users := ⟨[.withDefaults 1 "ada", .withDefaults 2 "bob"], by decide, by decide⟩
  spaces := ⟨[⟨1, "team", none, "Team", "", "", .InviteOnly, true⟩], by decide, by decide⟩
  members := ⟨[⟨1, 2, .Active, .User⟩], by decide, by decide⟩
  memos := ⟨[membersMemo], by decide, by decide⟩
  shares := Keyed.Table.empty
  revisions := Keyed.Table.empty
  spaceSequence := 1
  revisionSequence := 0
  allowsAnonymousAccess := true

theorem listing_agrees_with_read_member :
    (sqliteMemoAccessPredicate memberDatabase ⟨some 2, true, true⟩ membersMemo).isTrue = true ∧
    (sqliteMemoAccessPredicate memberDatabase ⟨some 2, true, true⟩ membersMemo).isTrue
      = (CheckMemoReadContext (ResolveMemoReadContext memberDatabase (some membersMemo)
          (some (.withDefaults 2 "bob")) false none)).allowed :=
  ⟨by decide, listing_agrees_with_read memberDatabase 2 _ (some (.withDefaults 2 "bob")) _ membersMemo
    List.mem_cons_self rfl rfl⟩

end Memos.Store

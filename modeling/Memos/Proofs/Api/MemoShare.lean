/-
What a share token opens, and when it ought to be shut.

The token takes the place of the audience: for the memo it was made for, the read policy
skips the audience and asks the rest.  What the rest does not know is what the API asks in
front of the policy when a memo is read by its name, and neither entrance for tokens asks
it.  So the token of a memo that was put back to a draft, or quarantined, goes on to open
it; archiving the memo or deleting it shuts the token out.
-/
import Memos.Api.MemoShare
import Memos.Proofs.Api.MemoAudience

namespace Memos.Api

open Store Access Fileserver

/-! ### The policy with a token -/

/-- With a token for the memo the audience is asked of Space memos only. -/
theorem allowed_check_shared (ctx : MemoReadContext) (memo : MemoRow)
    (found : ctx.memo = some memo) (shared : ctx.sharedMemoID = some memo.id)
    (active author : Bool)
    (hactive : ctx.viewer.any (fun viewer => decide (viewer.rowStatus = .Normal)) = active)
    (hauthor : (active && ctx.viewer.any fun viewer => decide (viewer.id = memo.creatorID)) = author) :
    (CheckMemoReadContext ctx).allowed
      = (ctx.creatorValid && isValidVisibility memo.visibility
        && (memo.visibility ≠ .SpaceAudience || (memo.spaceID.isSome && ctx.spaceValid))
        && ((decide (memo.rowStatus = .Archived) && author)
          || (decide (memo.rowStatus = .Normal)
            && (memo.visibility ≠ .SpaceAudience || admitted ctx memo active author)))) := by
  cases space : decide (memo.visibility = .SpaceAudience) with
  | true =>
      -- The token is of no use, and the policy is the one without it.
      have same : (CheckMemoReadContext ctx).allowed
          = (CheckMemoReadContext { ctx with sharedMemoID := none }).allowed := by
        rw [decide_eq_true_eq] at space
        unfold CheckMemoReadContext
        simp only [found, shared, space]
        simp only [ne_eq, not_true_eq_false, decide_false, Bool.and_false]
        rfl
      rw [decide_eq_true_eq] at space
      rw [same, allowed_check { ctx with sharedMemoID := none } memo found rfl active author hactive
        hauthor]
      simp only [space, ne_eq, not_true_eq_false, decide_false, Bool.false_or]
      rfl
  | false =>
      rw [decide_eq_false_iff_not] at space
      rw [CheckMemoReadContext, found]
      simp only [hactive, hauthor, shared, space, decide_false, Bool.false_and, ne_eq,
        not_false_eq_true, decide_true, Bool.true_or, Bool.and_true, Bool.false_eq_true, if_false]
      cases ctx.creatorValid with
      | false => rfl
      | true =>
          cases isValidVisibility memo.visibility with
          | false => rfl
          | true =>
              cases memo.rowStatus with
              | Normal => rfl
              | Archived => cases author <;> rfl
              | unrecognised => rfl

theorem allowed_resolved_shared (state : State) (memo : MemoRow) (viewer : Option UserRow)
    (allowAnonymous active author : Bool)
    (hactive : viewer.any (fun viewer => decide (viewer.rowStatus = .Normal)) = active)
    (hauthor : (active && viewer.any fun viewer => decide (viewer.id = memo.creatorID)) = author) :
    (CheckMemoReadContext
        (ResolveMemoReadContext state (some memo) viewer allowAnonymous (some memo.id))).allowed
      = (consistent state memo && ((decide (memo.rowStatus = .Archived) && author)
          || (decide (memo.rowStatus = .Normal)
            && (memo.visibility ≠ .SpaceAudience
              || admitted (ResolveMemoReadContext state (some memo) viewer allowAnonymous none)
                  memo active author)))) := by
  rw [allowed_check_shared _ memo rfl rfl active author hactive hauthor]
  congr 1
  show (_ && _ && (_ || (_ && (memo.spaceID.isNone || (spaceOf state memo).isSome)))) = _
  rw [placed_eq, consistent, ← creatorValid_eq]
  congr 1
  exact Bool.and_comm _ _

theorem allowed_visitor_shared (state : State) (memo : MemoRow) (allowAnonymous : Bool) :
    (CheckMemoReadContext
        (ResolveMemoReadContext state (some memo) none allowAnonymous (some memo.id))).allowed
      = (consistent state memo && decide (memo.rowStatus = .Normal)
        && (memo.visibility ≠ .SpaceAudience || (allowAnonymous && openAudience state memo))) := by
  rw [allowed_resolved_shared state memo none allowAnonymous false false rfl rfl]
  have mode : decide ((ResolveMemoReadContext state (some memo) none allowAnonymous none).spaceAccessMode
      = some .Public) = (spaceOf state memo).any fun space => decide (space.accessMode = .Public) :=
    mode_eq _ _
  have anonymous : (ResolveMemoReadContext state (some memo) none allowAnonymous none).allowAnonymous
      = allowAnonymous := rfl
  cases space : decide (memo.visibility = .SpaceAudience) with
  | true =>
      rw [decide_eq_true_eq] at space
      simp only [admitted, openAudience, mode, anonymous, space]
      cases allowAnonymous <;> simp [Bool.and_assoc]
  | false =>
      rw [decide_eq_false_iff_not] at space
      simp [space]

theorem allowed_token (state : State) (memo : MemoRow) (viewer : Option UserRow)
    (allowAnonymous active author : Bool) (token : Option Int)
    (hactive : viewer.any (fun viewer => decide (viewer.rowStatus = .Normal)) = active)
    (hauthor : (active && viewer.any fun viewer => decide (viewer.id = memo.creatorID)) = author) :
    (CheckMemoReadContext
        (ResolveMemoReadContext state (some memo) viewer allowAnonymous token)).allowed
      = (consistent state memo && ((decide (memo.rowStatus = .Archived) && author)
          || (decide (memo.rowStatus = .Normal)
            && (decide (token = some memo.id ∧ memo.visibility ≠ .SpaceAudience)
              || admitted (ResolveMemoReadContext state (some memo) viewer allowAnonymous none)
                  memo active author)))) := by
  by_cases shared : token = some memo.id
  · subst shared
    rw [allowed_resolved_shared state memo viewer allowAnonymous active author hactive hauthor]
    simp
  · have unused (ctx : MemoReadContext) (found : ctx.memo = some memo) :
        CheckMemoReadContext { ctx with sharedMemoID := token }
          = CheckMemoReadContext { ctx with sharedMemoID := none } := by
      unfold CheckMemoReadContext
      simp only [found, shared, decide_false, Bool.false_and, reduceCtorEq]
      rfl
    have same : CheckMemoReadContext
          (ResolveMemoReadContext state (some memo) viewer allowAnonymous token)
        = CheckMemoReadContext
            (ResolveMemoReadContext state (some memo) viewer allowAnonymous none) :=
      unused (ResolveMemoReadContext state (some memo) viewer allowAnonymous none) rfl
    rw [same, allowed_resolved state memo viewer allowAnonymous active author hactive hauthor]
    simp [shared]

/-! ### The entrances -/

section Entrances

variable {service : APIV1Service} {conversion : Conversion} {db : Tables} {now authUserID : Int}
  {shareToken : String} {share : MemoShareRow} {memo : MemoRow}

theorem getMemoByID_stored (stored : memo ∈ db.memos) (live : memo.deletedTs = none) :
    getMemoByID db.toState memo.id = some memo := by
  have found : db.memos.find? memo.id = some memo := Keyed.Table.find?_eq_some.mpr ⟨stored, rfl⟩
  unfold getMemoByID
  rw [found, Option.filter_some, if_pos (decide_eq_true live)]

theorem live_of_share (found : getMemoShare db.toState shareToken = some share)
    (stored : memo ∈ db.memos) (made : share.memoID = memo.id) : memo.deletedTs = none := by
  unfold getMemoShare at found
  obtain ⟨-, row⟩ := Keyed.Table.mem_select.mp (List.mem_of_mem_head? found)
  rw [Bool.and_eq_true, Keyed.Table.any_eq_true] at row
  obtain ⟨other, there, same⟩ := row.1
  rw [Bool.and_eq_true, decide_eq_true_eq, decide_eq_true_eq, made] at same
  rw [← Keyed.Table.eq_of_key there stored same.2]
  exact same.1

/-- The token opens its memo to whoever the instance knows, unless the memo is archived or
in a Space's audience. -/
theorem openSharedMemo_eq_ok (found : getMemoShare db.toState shareToken = some share)
    (active : isMemoShareExpired share now = false) (stored : memo ∈ db.memos)
    (made : share.memoID = memo.id) {opened : MemoRow} :
    openSharedMemo db now authUserID shareToken = .ok opened ↔
      (∃ viewer, fetchCurrentUser db.toState authUserID = .ok viewer) ∧ memo.rowStatus = .Normal ∧
        memo.visibility ≠ .SpaceAudience ∧ consistent db.toState memo = true ∧ opened = memo := by
  have live := live_of_share found stored made
  unfold openSharedMemo getActiveMemoShare
  rw [found]
  simp only [orRefuse, refuseIf, active, bind, Except.bind, pure, Except.pure, made,
    getMemoByID_stored stored live, Bool.false_eq_true, if_false]
  by_cases shut : (memo.rowStatus ≠ .Normal || memo.visibility = .SpaceAudience) = true
  · rw [if_pos shut]
    refine iff_of_false (by rintro ⟨⟩) ?_
    rintro ⟨-, normal, audience, -⟩
    simp [normal, audience] at shut
  · rw [if_neg shut]
    simp only [Bool.not_eq_true, Bool.or_eq_false_iff, decide_eq_false_iff_not, ne_eq,
      not_not] at shut
    dsimp only
    unfold Api.buildMemoReadContext
    cases fetched : fetchCurrentUser db.toState authUserID with
    | error e =>
        refine iff_of_false (by rintro ⟨⟩) ?_
        rintro ⟨⟨viewer, h⟩, -⟩
        cases h
    | ok viewer =>
        have allowed : (CheckMemoReadContext (ResolveMemoReadContext db.toState (some memo) viewer
            (allowAnonymous db.toState viewer) (some memo.id))).allowed
              = consistent db.toState memo := by
          rw [allowed_resolved_shared db.toState memo viewer _ _ _ rfl rfl]
          simp [shut.1, shut.2]
        simp only [Option.isNone_some, Bool.false_eq_true, if_false, allowed]
        cases consistent db.toState memo with
        | false => simp
        | true => simp [shut.1, shut.2, eq_comm]

/-- The route for files asks the policy as it is for a visitor, with the token's memo. -/
theorem checkAttachmentPermission_noUser (publicMusic : String → Except String Bool)
    (stored : memo ∈ db.memos) (live : memo.deletedTs = none) {attachment : AttachmentRow}
    (linked : attachment.memoID = some memo.id) {request : Fileserver.Request}
    (noUser : ∀ user, request.currentUser ≠ .ok (some user)) :
    (∃ readClass, checkAttachmentPermission publicMusic db.toState now request attachment
        = .ok readClass) ↔
      (CheckMemoReadContext (ResolveMemoReadContext db.toState (some memo) none
        db.allowsAnonymousAccess (sharedMemoID db.toState now request.shareToken))).allowed = true := by
  unfold checkAttachmentPermission
  rw [linked]
  simp only [getMemoByID_stored stored live]
  unfold ResolveMemoReadContext
  split
  · rename_i anonymous
    exact iff_of_true ⟨_, rfl⟩ anonymous
  · rename_i anonymous
    cases known : request.currentUser with
    | error e =>
        refine iff_of_false ?_ anonymous
        rintro ⟨readClass, h⟩
        cases h
    | ok user =>
        cases user with
        | none => exact decisionError_ok _
        | some user => exact absurd known (noUser user)

theorem checkAttachmentPermission_twice (publicMusic : String → Except String Bool) {state : State}
    {memoID : Int} (found : getMemoByID state memoID = some memo) {attachment : AttachmentRow}
    (linked : attachment.memoID = some memoID) (user : Option UserRow) (shareToken : String) :
    (∃ readClass, checkAttachmentPermission publicMusic state now ⟨.ok user, shareToken⟩ attachment
        = .ok readClass) ↔
      (CheckMemoReadContext (ResolveMemoReadContext state (some memo) none
          state.allowsAnonymousAccess (sharedMemoID state now shareToken))).allowed = true ∨
        (CheckMemoReadContext (ResolveMemoReadContext state (some memo) user
          state.allowsAnonymousAccess (sharedMemoID state now shareToken))).allowed = true := by
  unfold checkAttachmentPermission
  rw [linked]
  simp only [found]
  unfold ResolveMemoReadContext
  split
  · rename_i anonymous
    exact iff_of_true ⟨_, rfl⟩ (.inl anonymous)
  · rename_i anonymous
    rw [decisionError_ok, or_iff_right anonymous]

/-- **Two credentials for a file open what one of them opens.**

For every database, every attachment, every user and every share token: the route for files
answers a request with both exactly when it answers one with the token alone or one with the
account alone.  So no token takes anything from its holder, and none that is for another memo,
or has expired, adds to what an account reads. -/
theorem checkAttachmentPermission_credentials (publicMusic : String → Except String Bool)
    (state : State) (now : Int) (attachment : AttachmentRow) (user : UserRow) (shareToken : String) :
    (∃ readClass, checkAttachmentPermission publicMusic state now ⟨.ok (some user), shareToken⟩
        attachment = .ok readClass) ↔
      (∃ readClass, checkAttachmentPermission publicMusic state now ⟨.ok none, shareToken⟩
          attachment = .ok readClass) ∨
        ∃ readClass, checkAttachmentPermission publicMusic state now ⟨.ok (some user), ""⟩
          attachment = .ok readClass := by
  cases linked : attachment.memoID with
  | none =>
      -- The token is for memos: only music is answered to somebody without an account.
      have alone (token : String) (user : Option UserRow) :
          checkAttachmentPermission publicMusic state now ⟨.ok user, token⟩ attachment
            = checkUnlinkedAttachment publicMusic ⟨.ok user, ""⟩ attachment := by
        unfold checkAttachmentPermission
        rw [linked]
        rfl
      rw [alone, alone, alone]
      refine ⟨.inr, ?_⟩
      rintro (⟨readClass, visitor⟩ | account)
      · unfold checkUnlinkedAttachment at visitor ⊢
        dsimp only at visitor ⊢
        split at visitor
        · cases visitor
        · exact ⟨.Public, rfl⟩
        · cases visitor
      · exact account
  | some memoID =>
      cases found : getMemoByID state memoID with
      | none =>
          have nobody (request : Fileserver.Request) : ¬ ∃ readClass,
              checkAttachmentPermission publicMusic state now request attachment = .ok readClass := by
            rintro ⟨readClass, h⟩
            unfold checkAttachmentPermission at h
            rw [linked] at h
            simp only [found] at h
            cases h
          exact iff_of_false (nobody _) (not_or.mpr ⟨nobody _, nobody _⟩)
      | some memo =>
          have none : sharedMemoID state now "" = none := rfl
          rw [checkAttachmentPermission_twice publicMusic found linked,
            checkAttachmentPermission_twice publicMusic found linked,
            checkAttachmentPermission_twice publicMusic found linked, none, or_self]
          simp only [allowed_token state memo _ _ _ _ _ rfl rfl, Bool.and_eq_true, Bool.or_eq_true]
          tauto

theorem sharedMemoID_active (found : getMemoShare db.toState shareToken = some share)
    (active : isMemoShareExpired share now = false) (given : shareToken ≠ "") :
    sharedMemoID db.toState now shareToken = some share.memoID := by
  unfold sharedMemoID
  rw [if_neg given, found, Option.filter_some, active]
  rfl

def convertible (conversion : Conversion) (memo : MemoRow) : Bool :=
  (memo.payload.poll.isNone || 0 < memo.id)
    && match conversion.getMemoContentSnippet memo.content with
      | .ok _ => true
      | .error _ => false

theorem projectMemoCollaborationContext_ok (state : State) (readContext : MemoReadContext)
    (audience : memo.visibility ≠ .SpaceAudience) :
    ∃ space, projectMemoCollaborationContext state memo readContext = .ok space := by
  unfold projectMemoCollaborationContext
  simp only [audience, if_false]
  cases memo.spaceID with
  | none => exact ⟨none, rfl⟩
  | some spaceID =>
      cases readContext.spaceValid with
      | false => exact ⟨none, rfl⟩
      | true =>
          cases readContext.viewer with
          | none => exact ⟨none, rfl⟩
          | some viewer =>
              dsimp only
              rw [Bool.not_true, if_neg Bool.false_ne_true]
              split
              · exact ⟨none, rfl⟩
              · cases getSpace state spaceID with
                | none => exact ⟨none, rfl⟩
                | some space => exact ⟨_, rfl⟩

theorem convertPoll_ok (attachments : List AttachmentRow) (viewer : Option UserRow)
    (deviceID : String) :
    (∃ poll, convertPoll conversion db memo attachments viewer deviceID = .ok poll) ↔
      (memo.payload.poll.isNone || 0 < memo.id) = true := by
  unfold convertPoll
  cases memo.payload.poll with
  | none => simp
  | some stored =>
      dsimp only
      by_cases placed : memo.id ≤ 0
      · rw [if_pos placed]
        simp [Int.not_lt.mpr placed]
      · rw [if_neg placed]
        simp [Int.not_le.mp placed]

/-- Outside the audience of a Space nothing else keeps the message from being made. -/
theorem convertMemoFromStore_ok {creator : UserRow} {viewer : Option UserRow}
    (made : getUser db.toState memo.creatorID = some creator)
    (fetched : fetchCurrentUser db.toState authUserID = .ok viewer)
    (audience : memo.visibility ≠ .SpaceAudience) (reactions : List ReactionRow)
    (attachments : List AttachmentRow) (relations : List MemoRelationMessage) :
    (∃ message, convertMemoFromStore service conversion db now authUserID memo reactions attachments
        relations = .ok message) ↔ convertible conversion memo = true := by
  obtain ⟨space, projected⟩ := projectMemoCollaborationContext_ok db.toState
    (ResolveMemoReadContext db.toState (some memo) viewer (allowAnonymous db.toState viewer) none)
    audience
  have poll_ok : (∃ poll, convertPoll conversion db memo attachments viewer "" = .ok poll) ↔ _ :=
    convertPoll_ok attachments viewer ""
  unfold convertMemoFromStore convertible
  rw [made]
  simp only [fetched]
  simp only [Except.mapError, bind, Except.bind, pure, Except.pure, projected]
  have both (b : Bool) : ((memo.payload.poll.isNone || decide (0 < memo.id)) && b) = true ↔
      (∃ poll, convertPoll conversion db memo attachments viewer "" = .ok poll) ∧ b = true := by
    rw [Bool.and_eq_true, poll_ok]
  rw [both]
  cases convertPoll conversion db memo attachments viewer "" with
  | error e => simp
  | ok poll =>
      cases conversion.getMemoContentSnippet memo.content with
      | error e => simp
      | ok snippet => simp

end Entrances

/-! ### The result -/

/-- The memo is there for its readers: neither archived nor deleted, published, and not
quarantined. -/
structure InCirculation (now : Int) (memo : MemoRow) : Prop where
  live : memo.deletedTs = none
  normal : memo.rowStatus = .Normal
  published : memoIsUnpublished memo now = false
  shown : memo.payload.quarantined = false

/-- What the token discloses is in circulation: to everybody who asks for the shared memo,
and by the route for files, and by the poll, to those who have nothing but the token. -/
structure TokenFollows (service : APIV1Service) (conversion : Conversion) (db : Tables) (now : Int)
    (shareToken : String) (memo : MemoRow) : Prop where
  shared : ∀ authUserID message,
    GetSharedMemo service conversion db now authUserID shareToken = .ok message →
      InCirculation now memo
  poll : ∀ name deviceID poll, service.ExtractMemoUIDFromName name = .ok memo.uid →
    GetMemoPoll service conversion db now 0 name deviceID = .ok poll → InCirculation now memo
  file : ∀ (publicMusic : String → Except String Bool) (attachment : AttachmentRow)
      (request : Fileserver.Request) (readClass : MemoReadClass),
    attachment.memoID = some memo.id → request.shareToken = shareToken →
      (∀ user, request.currentUser ≠ .ok (some user)) →
      checkAttachmentPermission publicMusic db.toState now request attachment = .ok readClass →
        InCirculation now memo

/-- The memo was taken back, but for its row: a draft again, or quarantined. -/
def takenBack (now : Int) (memo : MemoRow) : Bool :=
  memoIsUnpublished memo now || memo.payload.quarantined

def filesOpen (db : Tables) (shareToken : String) (memo : MemoRow) : Bool :=
  consistent db.toState memo && decide (memo.rowStatus = .Normal)
    && ((memo.visibility ≠ .SpaceAudience && shareToken ≠ "")
      || (db.allowsAnonymousAccess && openAudience db.toState memo))

def sharedMemoOpen (conversion : Conversion) (db : Tables) (memo : MemoRow) : Bool :=
  consistent db.toState memo && decide (memo.rowStatus = .Normal)
    && memo.visibility ≠ .SpaceAudience && convertible conversion memo

section Result

variable {service : APIV1Service} {conversion : Conversion} {db : Tables} {now : Int}
  {shareToken : String} {share : MemoShareRow} {memo : MemoRow}

theorem creator_of_consistent {state : State} (h : consistent state memo = true) :
    ∃ creator, getUser state memo.creatorID = some creator := by
  simp only [consistent, Bool.and_eq_true] at h
  cases found : getUser state memo.creatorID with
  | none =>
      rw [found] at h
      cases h.1.2
  | some creator => exact ⟨creator, rfl⟩

theorem GetSharedMemo_ok (found : getMemoShare db.toState shareToken = some share)
    (active : isMemoShareExpired share now = false) (stored : memo ∈ db.memos)
    (made : share.memoID = memo.id) (authUserID : Int) :
    (∃ message, GetSharedMemo service conversion db now authUserID shareToken = .ok message) ↔
      (∃ viewer, fetchCurrentUser db.toState authUserID = .ok viewer) ∧
        sharedMemoOpen conversion db memo = true := by
  unfold GetSharedMemo sharedMemoOpen
  simp only [Bool.and_eq_true, decide_eq_true_eq]
  constructor
  · rintro ⟨message, h⟩
    cases opens : openSharedMemo db now authUserID shareToken with
    | error e =>
        rw [opens] at h
        cases h
    | ok opened =>
        obtain ⟨⟨viewer, fetched⟩, normal, audience, valid, rfl⟩ :=
          (openSharedMemo_eq_ok found active stored made).mp opens
        obtain ⟨creator, there⟩ := creator_of_consistent valid
        rw [opens] at h
        refine ⟨⟨viewer, fetched⟩, ⟨⟨valid, normal⟩, audience⟩, ?_⟩
        cases converts : convertMemoFromStore service conversion db now authUserID opened
            (ListReactions db [opened.id]) (ListAttachments db [opened.id]) [] with
        | error e =>
            simp only [orStatus, orConvertError, Except.mapError, bind, Except.bind, converts] at h
            cases h
        | ok message =>
            exact (convertMemoFromStore_ok there fetched audience _ _ _).mp ⟨message, converts⟩
  · rintro ⟨⟨viewer, fetched⟩, ⟨⟨valid, normal⟩, audience⟩, convertible⟩
    obtain ⟨creator, there⟩ := creator_of_consistent valid
    have opens : openSharedMemo db now authUserID shareToken = .ok memo :=
      (openSharedMemo_eq_ok found active stored made).mpr
        ⟨⟨viewer, fetched⟩, normal, audience, valid, rfl⟩
    obtain ⟨message, converts⟩ : ∃ message, convertMemoFromStore service conversion db now authUserID
        memo (ListReactions db [memo.id]) (ListAttachments db [memo.id]) [] = .ok message :=
      (convertMemoFromStore_ok there fetched audience _ _ _).mpr convertible
    refine ⟨{ message with parent := none }, ?_⟩
    rw [opens]
    simp only [orStatus, orConvertError, Except.mapError, bind, Except.bind, converts]
    rfl

/-- Whom the route for files answers without an account. -/
theorem file_ok (found : getMemoShare db.toState shareToken = some share)
    (active : isMemoShareExpired share now = false) (stored : memo ∈ db.memos)
    (made : share.memoID = memo.id) (publicMusic : String → Except String Bool)
    {attachment : AttachmentRow} (linked : attachment.memoID = some memo.id)
    {request : Fileserver.Request} (token : request.shareToken = shareToken)
    (noUser : ∀ user, request.currentUser ≠ .ok (some user)) :
    (∃ readClass, checkAttachmentPermission publicMusic db.toState now request attachment
        = .ok readClass) ↔ filesOpen db shareToken memo = true := by
  have live := live_of_share found stored made
  unfold filesOpen
  rw [checkAttachmentPermission_noUser publicMusic stored live linked noUser, token]
  by_cases given : shareToken = ""
  · have none : sharedMemoID db.toState now shareToken = none := by
      rw [given]
      rfl
    rw [none, allowed_visitor]
    simp only [given, ne_eq, not_true_eq_false, decide_false, Bool.and_false, Bool.false_or,
      Bool.and_eq_true]
    tauto
  · rw [sharedMemoID_active found active given, made, allowed_visitor_shared]
    simp [given]

/-- What a visitor reads by its name is in circulation. -/
theorem inCirculation_of_read {name : String} (named : service.ExtractMemoUIDFromName name = .ok memo.uid)
    (stored : memo ∈ db.memos) {read : MemoRow}
    (h : readNamedMemo service db now 0 name = .ok read) : InCirculation now memo := by
  have fetched : fetchCurrentUser db.toState 0 = .ok none := rfl
  have checked := checkMemoReadAccess_ok service.library service.memoCategoriesJson now fetched rfl
    stored
  unfold readNamedMemo at h
  simp only [named, refused, bind, Except.bind] at h
  cases found : getMemo db.toState memo.uid with
  | none =>
      rw [found] at h
      cases h
  | some other =>
      rw [found] at h checked
      simp only [orRefuse] at h
      cases check : checkMemoReadAccess service.library db.toState service.memoCategoriesJson now 0
          (some other) with
      | error e =>
          rw [check] at h
          cases h
      | ok u =>
          obtain ⟨live, audience, open'⟩ := checked.mp check
          simp only [inAudience, Bool.and_eq_true, decide_eq_true_eq] at audience
          simp only [withheld, Option.all_none, Bool.and_true, Bool.or_eq_false_iff] at open'
          exact ⟨live, audience.2, open'.1.2, open'.1.1⟩

/-- **When a share token keeps up with its memo.**

For every database, every memo in it and every token with an active share for the memo:
what the token discloses is a memo in circulation, whoever asks for the shared memo and
whatever file of the memo is fetched, if and only if the memo was not made a draft again
or quarantined while one of the two entrances is open. -/
theorem token_follows_iff (service : APIV1Service) (conversion : Conversion) (db : Tables)
    (now : Int) (shareToken : String) (share : MemoShareRow) (memo : MemoRow)
    (found : getMemoShare db.toState shareToken = some share)
    (active : isMemoShareExpired share now = false) (stored : memo ∈ db.memos)
    (made : share.memoID = memo.id) :
    TokenFollows service conversion db now shareToken memo ↔
      ¬ (takenBack now memo = true ∧
        (filesOpen db shareToken memo = true ∨ sharedMemoOpen conversion db memo = true)) := by
  have live := live_of_share found stored made
  constructor
  · rintro follows ⟨back, entered⟩
    have stays : ¬ InCirculation now memo := by
      rintro ⟨-, -, published, shown⟩
      rw [takenBack, published, shown] at back
      cases back
    apply stays
    rcases entered with files | shared
    · obtain ⟨readClass, h⟩ : ∃ readClass, checkAttachmentPermission (fun _ => .ok false) db.toState
          now ⟨.ok none, shareToken⟩ (.withDefaults 0 "" 0 (some memo.id) .Local) = .ok readClass :=
        (file_ok found active stored made _ rfl rfl fun _ h => by cases h).mpr files
      exact follows.file (fun _ => .ok false) _ _ readClass rfl rfl (fun _ h => by cases h) h
    · have visitor : fetchCurrentUser db.toState 0 = .ok none := rfl
      obtain ⟨message, h⟩ : ∃ message,
          GetSharedMemo service conversion db now 0 shareToken = .ok message :=
        (GetSharedMemo_ok found active stored made 0).mpr ⟨⟨none, visitor⟩, shared⟩
      exact follows.shared 0 message h
  · intro shut
    have circulates (entered : filesOpen db shareToken memo = true
        ∨ sharedMemoOpen conversion db memo = true) : InCirculation now memo := by
      have kept : takenBack now memo = false := by
        by_contra back
        exact shut ⟨by simpa using back, entered⟩
      have normal : memo.rowStatus = .Normal := by
        rcases entered with files | shared
        · simp only [filesOpen, Bool.and_eq_true, decide_eq_true_eq] at files
          exact files.1.2
        · simp only [sharedMemoOpen, Bool.and_eq_true, decide_eq_true_eq] at shared
          exact shared.1.1.2
      rw [takenBack, Bool.or_eq_false_iff] at kept
      exact ⟨live, normal, kept.1, kept.2⟩
    constructor
    · intro authUserID message h
      exact circulates (.inr ((GetSharedMemo_ok found active stored made authUserID).mp
        ⟨message, h⟩).2)
    · intro name deviceID poll named h
      cases read : readNamedMemo service db now 0 name with
      | error e =>
          unfold GetMemoPoll at h
          rw [read] at h
          cases h
      | ok other => exact inCirculation_of_read named stored read
    · intro publicMusic attachment request readClass linked token noUser h
      exact circulates (.inl ((file_ok found active stored made publicMusic linked token noUser).mp
        ⟨readClass, h⟩))

end Result

/-! ### An article -/

def article (draft : Bool) : MemoRow :=
  { MemoRow.withDefaults 7 "article" 5 .Public none with
    content := "text", payload := { title := "", draft } }

def articleTables (draft : Bool) : Tables :=
  { secretTables with
    memos := ⟨[article draft], by cases draft <;> decide, by cases draft <;> decide⟩
    shares := ⟨[⟨1, "token", 7, 5, 0, none⟩], by decide, by decide⟩ }

def plainConversion : Conversion where
  getMemoContentSnippet := .ok
  samplePollVoters _ := []

theorem token_follows_iff_article :
    TokenFollows plainService plainConversion (articleTables false) 60 "token" (article false) :=
  (token_follows_iff plainService plainConversion (articleTables false) 60 "token"
    ⟨1, "token", 7, 5, 0, none⟩ (article false) rfl rfl List.mem_cons_self rfl).mpr
      fun shut => by cases shut.1

/-- Once it is a draft again, nobody reads it by its name, and the link goes on. -/
theorem draft_shared : ∃ message,
    GetSharedMemo plainService plainConversion (articleTables true) 60 0 "token" = .ok message ∧
    message.content = "text" ∧ message.draft = true ∧
    ¬ CanRead plainService (articleTables true) 60 0 "article" ∧
    ¬ TokenFollows plainService plainConversion (articleTables true) 60 "token" (article true) := by
  refine ⟨_, rfl, rfl, rfl, ?_, ?_⟩
  · intro read
    cases read
  · intro follows
    have circulates := (follows.shared 0 _ rfl).published
    cases circulates

end Memos.Api

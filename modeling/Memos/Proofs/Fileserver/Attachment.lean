/-
A file is served to more viewers than may read its memo.

Both routes end in the same read policy, and on what the policy knows they agree: the
file route asks it twice, for a visitor and for the user, and lets the visitor's policy
apply to users as well, but a signed-in user already reads whatever a visitor reads.
What the policy does not know is what the API asks in front of it.  The file route does
not look at the payload of the memo at all, so a file of a quarantined memo, of somebody
else's draft or of a memo in a denied category is served to the audience the memo would
have without that.
-/
import Memos.Api.MemoAccess
import Memos.Fileserver.Attachment
import Memos.Proofs.Store.MemoRelation

namespace Memos.Fileserver

open Store Access Api

/-! ### The audience -/

/-- The viewer belongs to the audience of the memo, as far as the memo's row says. -/
def inAudience (state : State) (viewer : Option UserRow) (memo : MemoRow) : Bool :=
  match viewer with
  | none => state.allowsAnonymousAccess && openAudience state memo && consistent state memo
      && decide (memo.rowStatus = .Normal)
  | some user => readable state memo user.id

/-- A signed-in user reads no more where visitors are let in. -/
theorem allowed_user_eq (state : State) (memo : MemoRow) (user : UserRow)
    (normal : user.rowStatus = .Normal) (normal' : state.normalUser user.id = true)
    (allowAnonymous : Bool) :
    (CheckMemoReadContext
        (ResolveMemoReadContext state (some memo) (some user) allowAnonymous none)).allowed
      = readable state memo user.id := by
  have hactive : (some user).any (fun viewer => decide (viewer.rowStatus = .Normal)) = true := by
    simp [normal]
  have hauthor : (true && (some user).any fun viewer => decide (viewer.id = memo.creatorID))
      = decide (memo.creatorID = user.id) := by simp [eq_comm]
  have closed := allowed_resolved state memo (some user) false true _ hactive hauthor
  rw [allowed_user state memo user normal normal', ← readable] at closed
  rw [closed, allowed_resolved state memo (some user) allowAnonymous true _ hactive hauthor]
  have same : admitted (ResolveMemoReadContext state (some memo) (some user) allowAnonymous none)
        memo true (decide (memo.creatorID = user.id))
      = admitted (ResolveMemoReadContext state (some memo) (some user) false none) memo true
        (decide (memo.creatorID = user.id)) := by
    have fields : ∀ anonymous, (ResolveMemoReadContext state (some memo) (some user) anonymous
        none).allowAnonymous = anonymous := fun _ => rfl
    have member : (ResolveMemoReadContext state (some memo) (some user) allowAnonymous
        none).viewerSpaceMember = (ResolveMemoReadContext state (some memo) (some user) false
        none).viewerSpaceMember := rfl
    have mode : (ResolveMemoReadContext state (some memo) (some user) allowAnonymous
        none).spaceAccessMode = (ResolveMemoReadContext state (some memo) (some user) false
        none).spaceAccessMode := rfl
    unfold admitted
    rw [fields, fields, member, mode]
    simp only [Bool.or_true, Bool.and_true, Bool.true_and, Bool.and_false, Bool.false_or]
    generalize (ResolveMemoReadContext state (some memo) (some user) false none).spaceAccessMode
      = accessMode
    by_cases isPublic : accessMode = some .Public
    · simp [isPublic]
    · simp [isPublic]
  rw [same]

theorem readable_of_open {state : State} {memo : MemoRow} {userID : Int}
    (h : (openAudience state memo && consistent state memo
      && decide (memo.rowStatus = .Normal)) = true) : readable state memo userID = true := by
  simp only [Bool.and_eq_true] at h
  rw [readable, h.1.1, h.1.2, h.2]
  rfl

/-! ### The file route -/

theorem decisionError_ok (decision : MemoReadDecision) :
    (∃ readClass, decisionError decision = .ok readClass) ↔ decision.allowed = true := by
  unfold decisionError MemoReadDecision.allowed
  cases decision.denial with
  | None => simp
  | _ => simp

theorem checkAttachmentPermission_ok (publicMusic : String → Except String Bool) (state : State)
    (now : Int) {viewer : Option UserRow} {memo : MemoRow} {attachment : AttachmentRow}
    (active : ∀ user, viewer = some user →
      user.rowStatus = .Normal ∧ state.normalUser user.id = true)
    (stored : memo ∈ state.memos) (linked : attachment.memoID = some memo.id) :
    (∃ readClass, checkAttachmentPermission publicMusic state now ⟨.ok viewer, ""⟩ attachment
        = .ok readClass) ↔ memo.deletedTs = none ∧ inAudience state viewer memo = true := by
  have found : state.memos.find? memo.id = some memo :=
    Keyed.Table.find?_eq_some.mpr ⟨stored, rfl⟩
  have visitor := allowed_visitor state memo state.allowsAnonymousAccess
  unfold checkAttachmentPermission getMemoByID
  rw [linked]
  simp only [found]
  by_cases live : memo.deletedTs = none
  · rw [Option.filter_some, if_pos (decide_eq_true live)]
    simp only [live, true_and]
    unfold ResolveMemoReadContext at visitor
    have token : sharedMemoID state now "" = none := rfl
    rw [token]
    split
    · rename_i anonymous
      rw [visitor] at anonymous
      refine iff_of_true ⟨_, rfl⟩ ?_
      cases viewer with
      | none => exact anonymous
      | some user =>
          rw [Bool.and_assoc, Bool.and_assoc, Bool.and_eq_true] at anonymous
          exact readable_of_open (by rw [Bool.and_assoc]; exact anonymous.2)
    · rename_i anonymous
      rw [decisionError_ok]
      cases viewer with
      | none => rw [visitor, inAudience]
      | some user =>
          obtain ⟨normal, normal'⟩ := active user rfl
          have user_eq := allowed_user_eq state memo user normal normal' state.allowsAnonymousAccess
          unfold ResolveMemoReadContext at user_eq
          rw [user_eq, inAudience]
  · rw [Option.filter_some, if_neg (by simpa using live)]
    refine iff_of_false ?_ fun h => live h.1
    rintro ⟨readClass, h⟩
    cases h

/-! ### The API -/

/-- What the API asks in front of the read policy. -/
def withheld (library : Library) (memoCategoriesJson : String) (now : Int)
    (viewer : Option UserRow) (memo : MemoRow) : Bool :=
  memo.payload.quarantined
    || (memoIsUnpublished memo now && viewer.all fun viewer => decide (memo.creatorID ≠ viewer.id))
    || match inaccessibleMemoCategories library memoCategoriesJson viewer with
      | .error _ => true
      | .ok deniedCategories => !memoVisibleInCategories memo deniedCategories

theorem memoAccessDecisionError_ok (decision : MemoReadDecision) :
    memoAccessDecisionError decision = .ok () ↔ decision.allowed = true := by
  unfold memoAccessDecisionError MemoReadDecision.allowed
  cases decision.denial with
  | None => simp
  | _ => simp

theorem checkMemoReadAccess_administrator {library : Library} {state : State}
    {memoCategoriesJson : String} {now authUserID : Int} {viewer : Option UserRow} {memo : MemoRow}
    (fetched : fetchCurrentUser state authUserID = .ok viewer)
    (administrator : isSuperUser viewer = true) :
    checkMemoReadAccess library state memoCategoriesJson now authUserID (some memo) = .ok () := by
  unfold checkMemoReadAccess Api.buildMemoReadContext
  rw [fetched]
  show (if isSuperUser viewer then _ else _) = _
  rw [if_pos administrator]

/-- The API lets an ordinary viewer read what their audience and nothing in front of it admits. -/
theorem checkMemoReadAccess_some (library : Library) {state : State} (memoCategoriesJson : String)
    (now : Int) {authUserID : Int} {viewer : Option UserRow} {memo : MemoRow}
    (fetched : fetchCurrentUser state authUserID = .ok viewer) (ordinary : isSuperUser viewer = false) :
    checkMemoReadAccess library state memoCategoriesJson now authUserID (some memo) = .ok () ↔
      inAudience state viewer memo = true ∧
        withheld library memoCategoriesJson now viewer memo = false := by
  unfold checkMemoReadAccess Api.buildMemoReadContext
  rw [fetched]
  have viewer_eq : (ResolveMemoReadContext state (some memo) viewer (allowAnonymous state viewer)
      none).viewer = viewer := rfl
  have allowed : (CheckMemoReadContext (ResolveMemoReadContext state (some memo) viewer
      (allowAnonymous state viewer) none)).allowed = inAudience state viewer memo := by
    cases viewer with
    | none =>
        rw [allowed_visitor, inAudience, allowAnonymous]
        rfl
    | some user =>
        obtain ⟨normal, normal'⟩ := normalUser_of_fetched fetched
        rw [allowed_user_eq state memo user normal normal', inAudience]
  simp only [Option.isNone_some, Bool.false_eq_true, if_false, viewer_eq, ordinary]
  unfold withheld
  split
  · rename_i quarantined
    rw [quarantined]
    simp
  · rename_i shown
    rw [Bool.not_eq_true] at shown
    rw [shown, Bool.false_or]
    split
    · rename_i draft
      rw [draft]
      simp
    · rename_i published
      rw [Bool.not_eq_true] at published
      rw [published, Bool.false_or]
      cases inaccessibleMemoCategories library memoCategoriesJson viewer with
      | error e => simp
      | ok deniedCategories =>
          cases visible : memoVisibleInCategories memo deniedCategories with
          | false => simp [visible]
          | true => simp [visible, memoAccessDecisionError_ok, allowed]

theorem checkMemoReadAccess_ok (library : Library) {state : State} (memoCategoriesJson : String)
    (now : Int) {authUserID : Int} {viewer : Option UserRow} {memo : MemoRow}
    (fetched : fetchCurrentUser state authUserID = .ok viewer) (ordinary : isSuperUser viewer = false)
    (stored : memo ∈ state.memos) :
    checkMemoReadAccess library state memoCategoriesJson now authUserID (getMemo state memo.uid)
        = .ok () ↔
      memo.deletedTs = none ∧ inAudience state viewer memo = true ∧
        withheld library memoCategoriesJson now viewer memo = false := by
  rw [getMemo_uid stored]
  by_cases live : memo.deletedTs = none
  · rw [if_pos live, checkMemoReadAccess_some library memoCategoriesJson now fetched ordinary]
    exact (and_iff_right live).symm
  · rw [if_neg live]
    refine iff_of_false (fun h => ?_) fun h => live h.1
    unfold checkMemoReadAccess Api.buildMemoReadContext at h
    rw [fetched] at h
    cases h

/-! ### The result -/

/-- **When a file is exactly as visible as its memo.**

For every database, every memo in it, every attachment linked to the memo and every
viewer who is a visitor or an ordinary signed-in user, the file route serves the file
exactly when the API lets the viewer read the memo, unless the viewer belongs to the
audience of a memo that the API withholds.  Then the file is served and the memo is not
shown. -/
theorem file_agrees_iff (library : Library) (publicMusic : String → Except String Bool)
    (state : State) (memoCategoriesJson : String) (now : Int) (authUserID : Int)
    (viewer : Option UserRow) (memo : MemoRow) (attachment : AttachmentRow)
    (stored : memo ∈ state.memos) (linked : attachment.memoID = some memo.id)
    (fetched : fetchCurrentUser state authUserID = .ok viewer)
    (ordinary : isSuperUser viewer = false) :
    ((∃ readClass, checkAttachmentPermission publicMusic state now ⟨.ok viewer, ""⟩ attachment
        = .ok readClass) ↔
      checkMemoReadAccess library state memoCategoriesJson now authUserID (getMemo state memo.uid)
        = .ok ()) ↔
    ¬ (memo.deletedTs = none ∧ inAudience state viewer memo = true ∧
      withheld library memoCategoriesJson now viewer memo = true) := by
  have active : ∀ user, viewer = some user →
      user.rowStatus = .Normal ∧ state.normalUser user.id = true := by
    rintro user rfl
    exact normalUser_of_fetched fetched
  rw [checkAttachmentPermission_ok publicMusic state now active stored linked,
    checkMemoReadAccess_ok library memoCategoriesJson now fetched ordinary stored]
  cases withheld library memoCategoriesJson now viewer memo with
  | false => simp
  | true =>
      simp only [Bool.true_eq_false, and_false, and_true, iff_false]

/-! ### A picture in a draft -/

def novelMemo : MemoRow := .withDefaults 1 "novel" 1 .Public none

/-- Its sequel, public as well and still a draft. -/
def sequelMemo : MemoRow :=
  { MemoRow.withDefaults 2 "sequel" 1 .Public none with payload := { title := "", draft := true } }

def novelDatabase : State where
  users := ⟨[.withDefaults 1 "uma"], by decide, by decide⟩
  spaces := Keyed.Table.empty
  members := Keyed.Table.empty
  memos := ⟨[novelMemo, sequelMemo], by decide, by decide⟩
  shares := Keyed.Table.empty
  revisions := Keyed.Table.empty
  spaceSequence := 0
  revisionSequence := 0
  allowsAnonymousAccess := true

/-- An instance without categories, so that neither table is asked. -/
def noCategories : Library where
  letters := { toLower := id, zeroWidth := fun _ h => h }
  unmarshalCategories _ := .ok []

theorem file_agrees_iff_novel :
    (∃ readClass, checkAttachmentPermission (fun _ => .ok false) novelDatabase 0 ⟨.ok none, ""⟩
        (.withDefaults 7 "cover" 1 (some 1) .Local) = .ok readClass) ↔
      checkMemoReadAccess noCategories novelDatabase "" 0 0 (getMemo novelDatabase "novel")
        = .ok () :=
  (file_agrees_iff noCategories (fun _ => .ok false) novelDatabase "" 0 0 none novelMemo
    (.withDefaults 7 "cover" 1 (some 1) .Local) List.mem_cons_self rfl rfl rfl).mpr (by decide)

theorem picture_of_draft_served :
    checkAttachmentPermission (fun _ => .ok false) novelDatabase 0 ⟨.ok none, ""⟩
        (.withDefaults 8 "sketch" 1 (some 2) .Local) = .ok .Public ∧
      checkMemoReadAccess noCategories novelDatabase "" 0 0 (getMemo novelDatabase "sequel")
        = .error ⟨.NotFound, "memo not found"⟩ :=
  ⟨by decide, by decide⟩

end Memos.Fileserver

/-
Who may read a memo after an update.

The audience of a memo is decided by its row: by its visibility and its Space, its state,
its category, and by whether it is a draft.  An update that leaves these alone, or asks
for no more of them than there was, lets nobody read the memo who could not read it
before.  Two things are not what the mask says.  A hidden memo is public, so hiding a
private memo shows it to everybody who knows its address; and the author of a memo may
have left its Space, and gets the memo back by withdrawing it.
-/
import Memos.Proofs.Api.MemoUpdate
import Memos.Proofs.Fileserver.Attachment

namespace Memos.Api

open Store Access Fileserver

/-! ### The audience of a row -/

section Rows

variable {state state' : State} {memo row : MemoRow} {userID : Int}

/-- The audience is a matter of the memo's row and of tables an update does not touch. -/
theorem inAudience_congr (tables : SameTables state' state)
    (anonymous : state'.allowsAnonymousAccess = state.allowsAnonymousAccess)
    (viewer : Option UserRow) : inAudience state' viewer row = inAudience state viewer row := by
  have space : spaceOf state' row = spaceOf state row := by
    unfold spaceOf getSpace
    rw [tables.spaces]
  have creator : getUser state' row.creatorID = getUser state row.creatorID := by
    unfold getUser
    rw [tables.users]
  have member : ∀ spaceID userID, isMember state' spaceID userID = isMember state spaceID userID := by
    intro spaceID userID
    unfold isMember
    rw [tables.members]
  have opened : openAudience state' row = openAudience state row := by
    unfold openAudience
    rw [space]
  have valid : consistent state' row = consistent state row := by
    unfold consistent
    rw [space, creator]
  cases viewer with
  | none =>
      show (_ && _ && _ && _) = _
      rw [anonymous, opened, valid]
      rfl
  | some user =>
      show readable state' row user.id = readable state row user.id
      unfold readable userAudience
      simp only [opened, valid, space, member]

/-- The second row has no audience the first one has not, as far as the row says. -/
structure Narrower (memo row : MemoRow) : Prop where
  creatorID : row.creatorID = memo.creatorID
  rowStatus : row.rowStatus = memo.rowStatus ∨ memo.rowStatus = .Normal
  visibility : row.visibility = memo.visibility ∨ memo.visibility = .Public
    ∨ (row.visibility = .Private ∧ isValidVisibility memo.visibility = true)
  spaceID : memo.visibility = .SpaceAudience → row.visibility = .SpaceAudience →
    row.spaceID = memo.spaceID

/-- The author of a memo need not belong to the Space whose members read it. -/
def Withdrawn (memo row : MemoRow) : Prop :=
  memo.visibility = .SpaceAudience ∧
    (row.visibility ≠ memo.visibility ∨ row.rowStatus ≠ memo.rowStatus)

/-- What the audience is decided by, apart from the state and the author. -/
theorem openAudience_of_narrower (narrower : Narrower memo row)
    (h : openAudience state row = true) : openAudience state memo = true := by
  unfold openAudience at h ⊢
  rcases narrower.visibility with same | isPublic | ⟨withdrawn, -⟩
  · by_cases space : memo.visibility = .SpaceAudience
    · have place : spaceOf state row = spaceOf state memo := by
        unfold spaceOf
        rw [narrower.spaceID space (same.trans space)]
      rw [same, place] at h
      exact h
    · rw [same] at h
      simpa [space] using h
  · rw [isPublic]
    rfl
  · rw [withdrawn] at h
    cases h

theorem consistent_of_narrower (narrower : Narrower memo row)
    (h : consistent state row = true) : consistent state memo = true ∨
      (memo.visibility = .SpaceAudience ∧ row.visibility = .Private) := by
  unfold consistent at h ⊢
  rw [narrower.creatorID] at h
  simp only [Bool.and_eq_true] at h ⊢
  obtain ⟨⟨valid, creator⟩, placed⟩ := h
  by_cases space : memo.visibility = .SpaceAudience
  · rcases narrower.visibility with same | isPublic | ⟨withdrawn, -⟩
    · have place : spaceOf state row = spaceOf state memo := by
        unfold spaceOf
        rw [narrower.spaceID space (same.trans space)]
      rw [same] at valid
      rw [same, place] at placed
      exact .inl ⟨⟨valid, creator⟩, placed⟩
    · rw [isPublic] at space
      cases space
    · exact .inr ⟨space, withdrawn⟩
  · refine .inl ⟨⟨?_, creator⟩, by simp [space]⟩
    rcases narrower.visibility with same | isPublic | ⟨-, valid'⟩
    · rw [same] at valid
      exact valid
    · rw [isPublic]
      rfl
    · exact valid'

/-- Somebody else than the author reads a memo by its visibility alone. -/
theorem not_private_of_readable (other : row.creatorID ≠ userID)
    (h : readable state row userID = true) :
    row.rowStatus = .Normal ∧ row.visibility ≠ .Private := by
  unfold readable openAudience userAudience at h
  simp only [other, decide_false, Bool.and_false, Bool.false_or, Bool.or_false, Bool.and_eq_true,
    decide_eq_true_eq] at h
  refine ⟨h.2, fun isPrivate => ?_⟩
  rw [isPrivate] at h
  simp at h

theorem userAudience_of_narrower (narrower : Narrower memo row)
    (other : row.creatorID ≠ userID) (h : userAudience state row userID = true) :
    openAudience state memo = true ∨ userAudience state memo userID = true := by
  have other' : memo.creatorID ≠ userID := by
    rw [← narrower.creatorID]
    exact other
  rcases narrower.visibility with same | isPublic | ⟨withdrawn, -⟩
  · right
    unfold userAudience at h ⊢
    by_cases space : memo.visibility = .SpaceAudience
    · have unmoved := narrower.spaceID space (same.trans space)
      have place : spaceOf state row = spaceOf state memo := by
        unfold spaceOf
        rw [unmoved]
      rw [same, place, unmoved] at h
      simpa [other, other'] using h
    · rw [same] at h
      simpa [other, other', space] using h
  · left
    unfold openAudience
    rw [isPublic]
    rfl
  · unfold userAudience at h
    rw [withdrawn] at h
    simp [other] at h

theorem readable_author (author : memo.creatorID = userID)
    (valid : consistent state memo = true) (space : memo.visibility ≠ .SpaceAudience)
    (status : memo.rowStatus = .Normal ∨ memo.rowStatus = .Archived) :
    readable state memo userID = true := by
  unfold readable
  rw [valid]
  have shown : openAudience state memo = true ∨ userAudience state memo userID = true := by
    unfold consistent isValidVisibility at valid
    unfold openAudience userAudience
    cases visibility : memo.visibility with
    | Public => exact .inl (by simp)
    | Protected => exact .inr (by simp)
    | Private => exact .inr (by simp [author])
    | SpaceAudience => exact absurd visibility space
    | unrecognised => simp [visibility] at valid
  simpa [author, status] using shown

/-- Nobody joins the audience, but perhaps the author. -/
theorem inAudience_of_narrower (narrower : Narrower memo row) {viewer : Option UserRow}
    (author : Withdrawn memo row → ∀ user, viewer = some user → user.id ≠ memo.creatorID)
    (h : inAudience state viewer row = true) : inAudience state viewer memo = true := by
  cases viewer with
  | none =>
      unfold inAudience at h ⊢
      simp only [Bool.and_eq_true, decide_eq_true_eq] at h ⊢
      obtain ⟨⟨⟨anonymous, opened⟩, valid⟩, normal⟩ := h
      refine ⟨⟨⟨anonymous, openAudience_of_narrower narrower opened⟩, ?_⟩, ?_⟩
      · rcases consistent_of_narrower narrower valid with valid | ⟨-, withdrawn⟩
        · exact valid
        · unfold openAudience at opened
          rw [withdrawn] at opened
          cases opened
      · rcases narrower.rowStatus with same | normal'
        · exact same.symm.trans normal
        · exact normal'
  | some user =>
      show readable state memo user.id = true
      have h : readable state row user.id = true := h
      have parts := h
      unfold readable at parts
      simp only [Bool.and_eq_true, Bool.or_eq_true, decide_eq_true_eq] at parts
      obtain ⟨⟨shown, valid⟩, status⟩ := parts
      by_cases mine : row.creatorID = user.id
      · have mine' : memo.creatorID = user.id := narrower.creatorID.symm.trans mine
        by_cases space : memo.visibility = .SpaceAudience
        · have kept : row.visibility = memo.visibility ∧ row.rowStatus = memo.rowStatus := by
            by_contra changed
            refine author ⟨space, ?_⟩ user rfl mine'.symm
            tauto
          have unmoved := narrower.spaceID space (kept.1.trans space)
          have same : readable state memo user.id = readable state row user.id := by
            unfold readable openAudience userAudience consistent spaceOf
            rw [kept.1, kept.2, unmoved, narrower.creatorID]
          exact same.trans h
        · have valid' : consistent state memo = true := by
            rcases consistent_of_narrower narrower valid with valid | ⟨space', -⟩
            · exact valid
            · exact absurd space' space
          refine readable_author mine' valid' space ?_
          rcases narrower.rowStatus with same | normal
          · rw [← same]
            tauto
          · exact .inl normal
      · obtain ⟨normal, shared⟩ := not_private_of_readable mine h
        have valid' : consistent state memo = true := by
          rcases consistent_of_narrower narrower valid with valid | ⟨-, withdrawn⟩
          · exact valid
          · exact absurd withdrawn shared
        have normal' : memo.rowStatus = .Normal := by
          rcases narrower.rowStatus with same | normal'
          · exact same.symm.trans normal
          · exact normal'
        have shown' : openAudience state memo = true ∨ userAudience state memo user.id = true := by
          rcases shown with opened | shown
          · exact .inl (openAudience_of_narrower narrower opened)
          · exact userAudience_of_narrower narrower mine shown
        unfold readable
        rw [valid']
        simpa [normal'] using shown'

end Rows

/-! ### The row after a request -/

section Requests

variable {service : APIV1Service} {db db' : Tables} {now authUserID : Int} {revisionForce : Bool}
  {message : Option ProtoMemo} {paths : List UpdatePath} {input : ProtoMemo} {memo : MemoRow}
  {user : UserRow} {update : UpdateMemo}

/-- Where a request puts the memo: into a Space its author may write to, or into none. -/
theorem spaceID_of_placeUpdate
    (h : service.placeUpdate db.toState user memo input paths revisionForce = .ok update) :
    (.space ∈ paths → update.clearSpace = true ∧ update.spaceID = none ∨
      ∃ target, service.resolveWritableSpaceByName db.toState (input.space.getD "") user.id
        = .ok target ∧ update.clearSpace = false ∧ update.spaceID = some target.id) ∧
    (memo.visibility = .SpaceAudience → .visibility ∉ paths → .space ∈ paths →
      update.spaceID = memo.spaceID) := by
  obtain ⟨_, -, h⟩ := bind_accepted.mp h
  obtain ⟨moved, move, h⟩ := bind_accepted.mp h
  obtain ⟨shown, audience, h⟩ := bind_accepted.mp h
  obtain ⟨_, -, h⟩ := bind_accepted.mp h
  obtain ⟨_, unmoved, h⟩ := bind_accepted.mp h
  obtain ⟨_, -, h⟩ := bind_accepted.mp h
  rw [pure_accepted] at h
  rw [refuseIf_accepted] at unmoved
  have place : shown.spaceID = moved.spaceID ∧ shown.clearSpace = moved.clearSpace := by
    unfold updateVisibility at audience
    split at audience
    · obtain ⟨visibility, -, audience⟩ := bind_accepted.mp audience
      rw [pure_accepted] at audience
      rw [← audience]
      exact ⟨rfl, rfl⟩
    · injection audience with audience
      rw [audience]
      exact ⟨rfl, rfl⟩
  have spaceID : update.spaceID = moved.spaceID := by
    rw [← h]
    exact place.1
  have clearSpace : update.clearSpace = moved.clearSpace := by
    rw [← h]
    exact place.2
  rw [spaceID, clearSpace]
  refine ⟨fun listed => ?_, fun space unlisted listed => ?_⟩
  · unfold APIV1Service.updateSpace at move
    rw [if_pos (List.contains_iff_mem.mpr listed)] at move
    split at move
    · injection move with move
      rw [← move]
      exact .inl ⟨rfl, rfl⟩
    · obtain ⟨target, writable, move⟩ := bind_accepted.mp move
      rw [pure_accepted] at move
      rw [← move]
      exact .inr ⟨target, writable, rfl, rfl⟩
  · have here : paths.contains .space = true := List.contains_iff_mem.mpr listed
    have absent : paths.contains .visibility = false := by
      rw [Bool.eq_false_iff]
      exact fun h => unlisted (List.contains_iff_mem.mp h)
    rw [here, absent] at unmoved
    simp only [space, decide_true, Bool.true_and, Bool.not_false, Bool.and_true, if_true,
      decide_eq_false_iff_not, not_not] at unmoved
    exact unmoved.symm

/-- The payload of the update, once there is one, is that of the copy. -/
def Shares (memo : MemoRow) (pending : PendingUpdate) : Prop :=
  pending.update.payload = some pending.nextMemo.payload ∨
    (pending.update.payload = none ∧ pending.nextMemo.payload = memo.payload)

theorem effect_shares {pending : PendingUpdate} (shares : Shares memo pending) (path : UpdatePath) :
    Shares memo (service.effect now user input pending path) := by
  cases path with
  | visibility | space | pinned | state | createTime | updateTime | displayTime | attachments
  | relations | unrecognised => exact shares
  | content | location | category | hidden | hideTime | anonymous | adminScript | draft
  | publishTime | poll => exact .inl rfl

theorem settle_shares {pending : PendingUpdate} (shares : Shares memo pending) :
    (pending.settle now).update.payload.getD memo.payload
      = settlePayload now pending.nextMemo.payload := by
  rcases shares with shared | ⟨none, same⟩
  · rw [settle_payload shared]
    rfl
  · unfold PendingUpdate.settle settlePayload
    rw [← same]
    dsimp only
    split
    · split
      · rfl
      · show pending.update.payload.getD _ = _
        rw [none]
        rfl
    · split
      · rfl
      · rw [none]
        rfl

/-- What a path that is listed establishes and every step keeps. -/
theorem masked_of_listed {P : PendingUpdate → Prop} {path : UpdatePath} (listed : path ∈ paths)
    (establishes : ∀ pending, P (service.effect now user input pending path))
    (step : ∀ pending path, P pending → P (service.effect now user input pending path)) :
    P (service.masked now user input paths update memo) := by
  obtain ⟨before, after, rfl⟩ := List.append_of_mem listed
  unfold APIV1Service.masked
  rw [List.foldl_append, List.foldl_cons]
  exact List.foldlRecOn after _ (establishes _) fun pending h path _ => step pending path h

theorem masked_shares (placed : Placed memo input paths update) :
    Shares memo (service.masked now user input paths update memo) :=
  masked_invariant (P := Shares memo) (fun _ path _ shares => effect_shares shares path)
    (.inr ⟨placed.payload, rfl⟩)

theorem settled_payload {settledAt : Int} (placed : Placed memo input paths update)
    {payload : MemoPayload}
    (written : ((service.masked now user input paths update memo).settle settledAt).update.payload
      = some payload) :
    payload = settlePayload settledAt
      (service.masked now user input paths update memo).nextMemo.payload := by
  rw [← settle_shares (masked_shares placed), written]
  rfl

theorem masked_rowStatus (placed : Placed memo input paths update) :
    ((service.masked now user input paths update memo).update.rowStatus = none ∨
      (service.masked now user input paths update memo).update.rowStatus
        = some (convertStateToStore input.state)) ∧
    (.state ∉ paths →
      (service.masked now user input paths update memo).update.rowStatus = none) := by
  constructor
  · refine masked_invariant (P := fun pending => pending.update.rowStatus = none ∨
      pending.update.rowStatus = some (convertStateToStore input.state)) ?_ (.inl placed.rowStatus)
    intro pending path _ same
    cases path with
    | state => exact .inr rfl
    | _ => exact same
  · intro unlisted
    refine masked_invariant (P := fun pending => pending.update.rowStatus = none) ?_
      placed.rowStatus
    intro pending path listed same
    cases path with
    | state => exact absurd listed unlisted
    | _ => exact same

theorem masked_visibility (unlisted : .hidden ∉ paths) :
    (service.masked now user input paths update memo).update.visibility = update.visibility := by
  refine masked_invariant (P := fun pending => pending.update.visibility = update.visibility) ?_ rfl
  intro pending path listed same
  cases path with
  | hidden => exact absurd listed unlisted
  | _ => exact same

/-- A schedule is nothing but the flag and the time. -/
theorem effect_publishTime (pending : PendingUpdate) :
    (service.effect now user input pending .publishTime).nextMemo.payload
      = { pending.nextMemo.payload with
          draft := (schedule now input.publishTime pending.nextMemo.payload).draft
          publishTs := (schedule now input.publishTime pending.nextMemo.payload).publishTs } := by
  show schedule now input.publishTime _ = _
  unfold schedule
  cases input.publishTime with
  | none => rfl
  | some t => rfl

theorem masked_hidden (unlisted : .hidden ∉ paths) :
    (service.masked now user input paths update memo).nextMemo.payload.hidden
      = memo.payload.hidden := by
  refine masked_invariant (P := fun pending =>
    pending.nextMemo.payload.hidden = memo.payload.hidden) ?_ rfl
  intro pending path listed same
  cases path with
  | hidden => exact absurd listed unlisted
  | publishTime =>
      rw [effect_publishTime]
      exact same
  | _ => exact same

theorem masked_quarantined :
    (service.masked now user input paths update memo).nextMemo.payload.quarantined
      = memo.payload.quarantined := by
  refine masked_invariant (P := fun pending =>
    pending.nextMemo.payload.quarantined = memo.payload.quarantined) ?_ rfl
  intro pending path _ same
  cases path with
  | publishTime =>
      rw [effect_publishTime]
      exact same
  | _ => exact same

theorem masked_category :
    ((service.masked now user input paths update memo).nextMemo.payload.category
        = memo.payload.category ∨
      (service.masked now user input paths update memo).nextMemo.payload.category
        = service.category user input) ∧
    (.category ∉ paths →
      (service.masked now user input paths update memo).nextMemo.payload.category
        = memo.payload.category) := by
  constructor
  · refine masked_invariant (P := fun pending =>
      pending.nextMemo.payload.category = memo.payload.category ∨
        pending.nextMemo.payload.category = service.category user input) ?_ (.inl rfl)
    intro pending path _ same
    cases path with
    | category => exact .inr rfl
    | publishTime =>
        rw [effect_publishTime]
        exact same
    | _ => exact same
  · intro unlisted
    refine masked_invariant (P := fun pending =>
      pending.nextMemo.payload.category = memo.payload.category) ?_ rfl
    intro pending path listed same
    cases path with
    | category => exact absurd listed unlisted
    | publishTime =>
        rw [effect_publishTime]
        exact same
    | _ => exact same

theorem masked_draft (draft : memo.payload.draft = true) (unscheduled : .publishTime ∉ paths)
    (kept : .draft ∈ paths → input.draft = true) :
    (service.masked now user input paths update memo).nextMemo.payload.draft = true ∧
      (service.masked now user input paths update memo).nextMemo.payload.publishTs
        = memo.payload.publishTs := by
  refine masked_invariant (P := fun pending => pending.nextMemo.payload.draft = true ∧
    pending.nextMemo.payload.publishTs = memo.payload.publishTs) ?_ ⟨draft, rfl⟩
  intro pending path listed same
  cases path with
  | publishTime => exact absurd listed unscheduled
  | draft =>
      refine ⟨kept listed, ?_⟩
      show (if input.draft = true then pending.nextMemo.payload.publishTs else 0) = _
      rw [if_pos (kept listed)]
      exact same.2
  | _ => exact same

/-- The settled update writes the visibility the loop has left, or makes the memo public. -/
theorem settle_visibility (pending : PendingUpdate) :
    (pending.settle now).update.visibility
      = if pending.nextMemo.payload.hidden then some .Public else pending.update.visibility := by
  unfold PendingUpdate.settle
  dsimp only
  by_cases hidden : pending.nextMemo.payload.hidden = true
  · rw [if_pos hidden, if_pos hidden]
    split
    · rfl
    · rfl
  · rw [if_neg hidden, if_neg hidden]
    split
    · rfl
    · rfl

theorem settle_rowStatus (pending : PendingUpdate) :
    (pending.settle now).update.rowStatus = pending.update.rowStatus := by
  unfold PendingUpdate.settle
  dsimp only
  split
  · split
    · rfl
    · rfl
  · split
    · rfl
    · rfl

/-- A category that is accepted is the one asked for, without the space around it. -/
theorem category_of_accepts {comment : Bool} (pending : PendingUpdate)
    (h : service.Accepts now user comment input .category) :
    service.category user input = String.ofList (trimSpace (input.category.getD "").toList) := by
  have accepted := h pending
  obtain ⟨category, normalized, -⟩ := bind_accepted.mp accepted
  unfold APIV1Service.category
  rw [normalized]
  show category = _
  unfold APIV1Service.normalizeMemoCategory at normalized
  dsimp only at normalized
  split at normalized
  · rename_i none
    rw [none]
    exact (pure_accepted.mp normalized).symm
  · obtain ⟨_, -, normalized⟩ := bind_accepted.mp normalized
    obtain ⟨_, -, normalized⟩ := bind_accepted.mp normalized
    obtain ⟨_, -, normalized⟩ := bind_accepted.mp normalized
    exact (pure_accepted.mp normalized).symm

/-! ### What a request asks for -/

/-- The request asks for nothing that would show the memo to others. -/
structure AsksNoWider (service : APIV1Service) (state : State) (now authUserID : Int)
    (memo : MemoRow) (input : ProtoMemo) (paths : List UpdatePath) : Prop where
  visibility : .visibility ∈ paths → ∀ next, validateUpdateMemoVisibility input.visibility = .ok next →
    next = memo.visibility ∨ memo.visibility = .Public
      ∨ (next = .Private ∧ isValidVisibility memo.visibility = true)
  hidden : .hidden ∈ paths → memo.visibility = .Public
  /-- It does not move the memo and show it to the other Space. -/
  space : .space ∈ paths → memo.visibility = .SpaceAudience → input.visibility = .Space →
    ∀ user, fetchCurrentUser state authUserID = .ok (some user) →
      ∀ target, service.resolveWritableSpaceByName state (input.space.getD "") user.id = .ok target →
        memo.spaceID = some target.id
  state : .state ∈ paths →
    memo.rowStatus = .Normal ∨ convertStateToStore input.state = memo.rowStatus
  draft : .draft ∈ paths → memoIsUnpublished memo now = true → input.draft = true
  publishTime : .publishTime ∈ paths → memoIsUnpublished memo now = false
  category : .category ∈ paths → memo.payload.category = "" ∨
    String.ofList (trimSpace (input.category.getD "").toList) = memo.payload.category

/-- The request takes the memo out of the hands of its Space. -/
def AsksToWithdraw (memo : MemoRow) (input : ProtoMemo) (paths : List UpdatePath) : Prop :=
  memo.visibility = .SpaceAudience ∧
    ((.visibility ∈ paths ∧ input.visibility ≠ .Space) ∨
      (.state ∈ paths ∧ convertStateToStore input.state ≠ memo.rowStatus))

/-- The row a request leaves behind is that of the memo, and of its author. -/
structure Updated (service : APIV1Service) (now : Int) (user : UserRow) (input : ProtoMemo)
    (paths : List UpdatePath) (update : UpdateMemo) (memo row : MemoRow) : Prop where
  uid : row.uid = memo.uid
  creatorID : row.creatorID = memo.creatorID
  deletedTs : row.deletedTs = memo.deletedTs
  rowStatus : row.rowStatus = (service.masked now user input paths update memo).update.rowStatus.getD
    memo.rowStatus
  visibility : row.visibility =
    if (service.masked now user input paths update memo).nextMemo.payload.hidden then .Public
    else (service.masked now user input paths update memo).update.visibility.getD memo.visibility
  spaceID : row.spaceID =
    if update.clearSpace then none
    else if update.spaceID.isSome then update.spaceID
    else memo.spaceID
  payload : row.payload
    = settlePayload now (service.masked now user input paths update memo).nextMemo.payload

theorem Committed.updated (admitted : Admitted service db authUserID message input memo user)
    (h : Committed service db now authUserID revisionForce paths input memo user update db') :
    SameTables db'.toState db.toState ∧
      db'.toState.allowsAnonymousAccess = db.toState.allowsAnonymousAccess ∧
      ∃ row ∈ db'.memos, Updated service now user input paths update memo row := by
  have placed := placed_of_placeUpdate h.placed
  obtain ⟨tables, anonymous, editor, row⟩ := h.writes admitted
  refine ⟨tables, anonymous, _, row, ?_⟩
  constructor
  · show ((PendingUpdate.settle now _).update.uid).getD memo.uid = memo.uid
    rw [settled_place.2.1, placed.uid]
    rfl
  · rfl
  · rfl
  · show ((PendingUpdate.settle now _).update.rowStatus).getD memo.rowStatus = _
    rw [settle_rowStatus]
  · show ((PendingUpdate.settle now _).update.visibility).getD memo.visibility = _
    rw [settle_visibility]
    split
    · rfl
    · rfl
  · show (if (PendingUpdate.settle now _).update.clearSpace then none
      else if (PendingUpdate.settle now _).update.spaceID.isSome then
        (PendingUpdate.settle now _).update.spaceID
      else memo.spaceID) = _
    rw [settled_place.2.2.1, settled_place.2.2.2]
  · exact settle_shares (masked_shares placed)

/-- A memo in no Space cannot be shown to one. -/
theorem audience_needs_space
    (h : service.placeUpdate db.toState user memo input paths revisionForce = .ok update)
    (placed : .space ∈ paths) (shown : .visibility ∈ paths) (space : input.visibility = .Space) :
    update.spaceID.isNone = false := by
  obtain ⟨_, -, h⟩ := bind_accepted.mp h
  obtain ⟨moved, -, h⟩ := bind_accepted.mp h
  obtain ⟨audience, asked, h⟩ := bind_accepted.mp h
  obtain ⟨_, needs, h⟩ := bind_accepted.mp h
  obtain ⟨_, -, h⟩ := bind_accepted.mp h
  obtain ⟨_, -, h⟩ := bind_accepted.mp h
  rw [pure_accepted] at h
  rw [refuseIf_accepted] at needs
  unfold updateVisibility at asked
  rw [if_pos (List.contains_iff_mem.mpr shown), space] at asked
  have asked := pure_accepted.mp asked
  rw [← asked] at needs h
  rw [if_pos (List.contains_iff_mem.mpr placed)] at needs
  rw [← h]
  simpa using needs

/-- A hidden memo is a public one; the mask hides no other. -/
theorem visibility_of_updated (asks : AsksNoWider service db.toState now authUserID memo input paths)
    (flagged : memo.payload.hidden = true → memo.visibility = .Public)
    (placed : Placed memo input paths update) {row : MemoRow}
    (updated : Updated service now user input paths update memo row) :
    memo.visibility = .Public ∨
      (.visibility ∉ paths ∧ row.visibility = memo.visibility) ∨
      (.visibility ∈ paths ∧ validateUpdateMemoVisibility input.visibility = .ok row.visibility) := by
  by_cases isPublic : memo.visibility = .Public
  · exact .inl isPublic
  · right
    have unlisted : .hidden ∉ paths := fun listed => isPublic (asks.hidden listed)
    have shown : memo.payload.hidden = false := by
      rw [Bool.eq_false_iff]
      exact fun hidden => isPublic (flagged hidden)
    have visibility := updated.visibility
    rw [masked_hidden unlisted, shown, masked_visibility unlisted] at visibility
    by_cases listed : .visibility ∈ paths
    · obtain ⟨next, valid, written⟩ := placed.audience (List.contains_iff_mem.mpr listed)
      rw [written] at visibility
      refine .inr ⟨listed, ?_⟩
      rw [visibility]
      exact valid
    · have absent : paths.contains .visibility = false := by
        rw [Bool.eq_false_iff]
        exact fun h => listed (List.contains_iff_mem.mp h)
      rw [placed.sameAudience absent] at visibility
      exact .inl ⟨listed, visibility⟩

theorem narrower_of_updated (asks : AsksNoWider service db.toState now authUserID memo input paths)
    (flagged : memo.payload.hidden = true → memo.visibility = .Public)
    (admitted : Admitted service db authUserID message input memo user)
    (committed : Committed service db now authUserID revisionForce paths input memo user update db')
    {row : MemoRow} (updated : Updated service now user input paths update memo row) :
    Narrower memo row := by
  have placed := placed_of_placeUpdate committed.placed
  have shown := visibility_of_updated asks flagged placed updated
  constructor
  · exact updated.creatorID
  · rw [updated.rowStatus]
    by_cases listed : .state ∈ paths
    · rcases (masked_rowStatus placed).1 with none | asked
      · rw [none]
        exact .inl rfl
      · rw [asked]
        rcases asks.state listed with normal | same
        · exact .inr normal
        · exact .inl same
    · rw [(masked_rowStatus placed).2 listed]
      exact .inl rfl
  · rcases shown with isPublic | ⟨-, same⟩ | ⟨listed, asked⟩
    · exact .inr (.inl isPublic)
    · exact .inl same
    · exact asks.visibility listed _ asked
  · intro space space'
    obtain ⟨moved, unmoved⟩ := spaceID_of_placeUpdate committed.placed
    rw [updated.spaceID]
    by_cases listed : .space ∈ paths
    · rcases shown with isPublic | ⟨unlisted, -⟩ | ⟨listed', asked⟩
      · rw [isPublic] at space
        cases space
      · have same := unmoved space unlisted listed
        rcases moved listed with ⟨cleared, none⟩ | ⟨target, -, kept, target'⟩
        · rw [cleared, ← same, none]
          rfl
        · rw [kept, target', ← same, target']
          rfl
      · have again : input.visibility = .Space := by
          rw [space'] at asked
          cases visibility : input.visibility with
          | Space => rfl
          | Unspecified | Private | Protected | Public | unrecognised =>
              rw [visibility] at asked
              cases asked
        rcases moved listed with ⟨cleared, none⟩ | ⟨target, writable, kept, target'⟩
        · -- A memo in no Space cannot be shown to one.
          have refused := audience_needs_space committed.placed listed listed' again
          rw [none] at refused
          cases refused
        · rw [kept, target', asks.space listed space again user admitted.active target writable]
          rfl
    · have absent : paths.contains .space = false := by
        rw [Bool.eq_false_iff]
        exact fun h => listed (List.contains_iff_mem.mp h)
      rw [(placed.samePlace absent).1, (placed.samePlace absent).2]
      rfl

theorem quarantined_settlePayload (payload : MemoPayload) :
    (settlePayload now payload).quarantined = payload.quarantined := by
  unfold settlePayload
  split
  · rfl
  · rfl

theorem hidden_settlePayload (payload : MemoPayload) :
    (settlePayload now payload).hidden = payload.hidden := by
  unfold settlePayload
  split
  · rfl
  · rfl

theorem category_settlePayload (payload : MemoPayload) :
    (settlePayload now payload).category = payload.category := by
  unfold settlePayload
  split
  · rfl
  · rfl

/-- A draft whose time has not come is one of the row as well. -/
theorem unpublished_of_updated
    (asks : AsksNoWider service db.toState now authUserID memo input paths)
    {row : MemoRow} (updated : Updated service now user input paths update memo row)
    {t : Int} (later : now ≤ t) (h : memoIsUnpublished memo t = true) :
    memoIsUnpublished row t = true := by
  have parts := h
  unfold memoIsUnpublished at parts
  simp only [Bool.and_eq_true, Bool.or_eq_true, decide_eq_true_eq] at parts
  obtain ⟨draft, waiting⟩ := parts
  have now_too : memoIsUnpublished memo now = true := by
    unfold memoIsUnpublished
    simp only [Bool.and_eq_true, Bool.or_eq_true, decide_eq_true_eq]
    exact ⟨draft, by omega⟩
  have unscheduled : .publishTime ∉ paths := by
    intro listed
    have published := asks.publishTime listed
    rw [now_too] at published
    cases published
  have masked : (service.masked now user input paths update memo).nextMemo.payload.draft = true ∧
      (service.masked now user input paths update memo).nextMemo.payload.publishTs
        = memo.payload.publishTs :=
    masked_draft draft unscheduled fun listed => asks.draft listed now_too
  obtain ⟨kept, keptTs⟩ := masked
  have same : row.payload = (service.masked now user input paths update memo).nextMemo.payload := by
    rw [updated.payload]
    unfold settlePayload
    rw [if_neg]
    rw [keptTs]
    simp only [Bool.and_eq_true, decide_eq_true_eq, not_and]
    intro _
    omega
  unfold memoIsUnpublished
  rw [same, kept, keptTs]
  simpa using waiting

theorem withheld_of_updated (asks : AsksNoWider service db.toState now authUserID memo input paths)
    (committed : Committed service db now authUserID revisionForce paths input memo user update db')
    {row : MemoRow} (updated : Updated service now user input paths update memo row)
    {viewer : Option UserRow} {json : String} {t : Int} (later : now ≤ t)
    (h : withheld service.library json t viewer row = false) :
    withheld service.library json t viewer memo = false := by
  unfold withheld at h ⊢
  simp only [Bool.or_eq_false_iff] at h ⊢
  obtain ⟨⟨shown, published⟩, visible⟩ := h
  refine ⟨⟨?_, ?_⟩, ?_⟩
  · rw [updated.payload, quarantined_settlePayload, masked_quarantined] at shown
    exact shown
  · rw [updated.creatorID] at published
    rw [Bool.and_eq_false_iff] at published ⊢
    rcases published with published | author
    · refine .inl ?_
      by_contra unpublished
      rw [Bool.not_eq_false] at unpublished
      rw [unpublished_of_updated asks updated later unpublished] at published
      cases published
    · exact .inr author
  · have category : row.payload.category
        = (service.masked now user input paths update memo).nextMemo.payload.category := by
      rw [updated.payload, category_settlePayload]
    have kept : memo.payload.category = "" ∨ row.payload.category = memo.payload.category := by
      rw [category]
      by_cases listed : .category ∈ paths
      · rcases asks.category listed with none | same
        · exact .inl none
        · rcases masked_category.1 with kept | asked
          · exact .inr kept
          · rw [asked, category_of_accepts { update, nextMemo := memo }
              (committed.accepts _ listed)]
            exact .inr same
      · exact .inr (masked_category.2 listed)
    cases denied : inaccessibleMemoCategories service.library json viewer with
    | error e =>
        rw [denied] at visible
        cases visible
    | ok deniedCategories =>
        rw [denied] at visible
        unfold memoVisibleInCategories at visible ⊢
        rcases kept with none | same
        · rw [none]
          rfl
        · rw [same] at visible
          exact visible

end Requests

/-! ### The result -/

def CanRead (service : APIV1Service) (db : Tables) (now viewerID : Int) (uid : String) : Prop :=
  checkMemoReadAccess service.library db.toState service.memoCategoriesJson now viewerID
    (getMemo db.toState uid) = .ok ()

/-- An administrator reads every memo there is. -/
theorem canRead_administrator {service : APIV1Service} {db : Tables} {now viewerID : Int}
    {memo : MemoRow} {viewer : Option UserRow}
    (fetched : fetchCurrentUser db.toState viewerID = .ok viewer)
    (administrator : isSuperUser viewer = true)
    (found : getMemo db.toState memo.uid = some memo) :
    CanRead service db now viewerID memo.uid := by
  unfold CanRead
  rw [found]
  exact checkMemoReadAccess_administrator fetched administrator

/-- Somebody who reads a memo is known to the instance. -/
theorem fetched_of_canRead {service : APIV1Service} {db : Tables} {now viewerID : Int}
    {uid : String} (h : CanRead service db now viewerID uid) :
    ∃ viewer, fetchCurrentUser db.toState viewerID = .ok viewer := by
  unfold CanRead checkMemoReadAccess buildMemoReadContext at h
  cases fetched : fetchCurrentUser db.toState viewerID with
  | error e =>
      rw [fetched] at h
      cases h
  | ok viewer => exact ⟨viewer, rfl⟩

theorem id_of_fetched {state : State} {viewerID : Int} {user : UserRow}
    (fetched : fetchCurrentUser state viewerID = .ok (some user)) : user.id = viewerID := by
  unfold fetchCurrentUser at fetched
  split at fetched
  · cases fetched
  · cases found : getUser state viewerID with
    | none =>
        rw [found] at fetched
        cases fetched
    | some stored =>
        rw [found] at fetched
        dsimp only at fetched
        split at fetched
        · injection fetched with fetched
          injection fetched with fetched
          rw [← fetched]
          exact (Keyed.Table.find?_eq_some.mp found).2
        · cases fetched

/-- What an update does to the audience of its memo, if it is accepted. -/
theorem canRead_of_updated {service : APIV1Service} {db db' : Tables} {now authUserID : Int}
    {revisionForce : Bool} {paths : List UpdatePath} {input : ProtoMemo} {memo : MemoRow}
    {user : UserRow} {update : UpdateMemo} {message : Option ProtoMemo}
    (asks : AsksNoWider service db.toState now authUserID memo input paths)
    (flagged : memo.payload.hidden = true → memo.visibility = .Public)
    (found : getMemo db.toState memo.uid = some memo)
    (admitted : Admitted service db authUserID message input memo user)
    (committed : Committed service db now authUserID revisionForce paths input memo user update db')
    {t viewerID : Int} (later : now ≤ t)
    (other : AsksToWithdraw memo input paths → viewerID ≠ memo.creatorID)
    (h : CanRead service db' t viewerID memo.uid) : CanRead service db t viewerID memo.uid := by
  obtain ⟨tables, anonymous, row, stored, updated⟩ := committed.updated admitted
  obtain ⟨stored', live, -⟩ := mem_of_getMemo found
  have placed := placed_of_placeUpdate committed.placed
  have fetch : fetchCurrentUser db'.toState viewerID = fetchCurrentUser db.toState viewerID := by
    unfold fetchCurrentUser getUser
    rw [tables.users]
  obtain ⟨viewer, fetched⟩ := fetched_of_canRead h
  have fetched' : fetchCurrentUser db.toState viewerID = .ok viewer := fetch.symm.trans fetched
  cases ordinary : isSuperUser viewer with
  | true => exact canRead_administrator fetched' ordinary found
  | false =>
      unfold CanRead at h ⊢
      rw [← updated.uid] at h
      rw [checkMemoReadAccess_ok _ _ _ fetched ordinary stored] at h
      rw [checkMemoReadAccess_ok _ _ _ fetched' ordinary stored']
      obtain ⟨-, shown, open'⟩ := h
      rw [inAudience_congr tables anonymous] at shown
      refine ⟨live, ?_, withheld_of_updated asks committed updated later open'⟩
      refine inAudience_of_narrower
        (narrower_of_updated asks flagged admitted committed updated) ?_ shown
      rintro ⟨space, changed⟩ reader rfl
      rw [id_of_fetched fetched']
      refine other ⟨space, ?_⟩
      rcases changed with visibility | rowStatus
      · left
        rcases visibility_of_updated asks flagged placed updated with
          isPublic | ⟨-, same⟩ | ⟨listed, asked⟩
        · rw [isPublic] at space
          cases space
        · exact absurd same visibility
        · refine ⟨listed, fun again => visibility ?_⟩
          rw [again] at asked
          exact (Except.ok.inj asked).symm.trans space.symm
      · right
        rw [updated.rowStatus] at rowStatus
        by_cases listed : .state ∈ paths
        · have status : (service.masked now user input paths update memo).update.rowStatus = none ∨
              (service.masked now user input paths update memo).update.rowStatus
                = some (convertStateToStore input.state) := (masked_rowStatus placed).1
          rcases status with none | asked
          · rw [none] at rowStatus
            exact absurd rfl rowStatus
          · rw [asked] at rowStatus
            exact ⟨listed, rowStatus⟩
        · rw [(masked_rowStatus placed).2 listed] at rowStatus
          exact absurd rfl rowStatus

/-- **Who may read a memo after an update.**

Take any memo that is stored, and is public if it is hidden, and any request that names
it.  The request leaves a memo that is public if it is hidden.  Its visibility has
changed only if the mask lists `visibility` or `hidden`, and a request that hides it makes
it public.  And if the request asks for nothing that would show the memo to others, then
whoever reads it afterwards could have read it before, but for an author who takes it
back from a Space. -/
theorem readers_not_added (service : APIV1Service) (db : Tables) (now authUserID : Int)
    (revisionForce : Bool) (input : ProtoMemo) (paths : List UpdatePath) (memo : MemoRow)
    (named : service.ExtractMemoUIDFromName input.name = .ok memo.uid)
    (found : getMemo db.toState memo.uid = some memo)
    (flagged : memo.payload.hidden = true → memo.visibility = .Public) :
    (∃ row, getMemo (service.tablesAfter db now authUserID revisionForce
          ⟨some input, paths⟩).toState memo.uid = some row ∧
        (row.payload.hidden = true → row.visibility = .Public) ∧
        (.visibility ∉ paths → .hidden ∉ paths → row.visibility = memo.visibility)) ∧
    (∀ db', service.updateMemo db now authUserID revisionForce ⟨some input, paths⟩ = .ok db' →
      .hidden ∈ paths → input.hidden = true →
        ∃ row, getMemo db'.toState memo.uid = some row ∧ row.visibility = .Public) ∧
    (AsksNoWider service db.toState now authUserID memo input paths →
      ∀ t viewerID, now ≤ t → (AsksToWithdraw memo input paths → viewerID ≠ memo.creatorID) →
        CanRead service (service.tablesAfter db now authUserID revisionForce ⟨some input, paths⟩)
          t viewerID memo.uid → CanRead service db t viewerID memo.uid) := by
  unfold APIV1Service.tablesAfter
  cases accepted : service.updateMemo db now authUserID revisionForce ⟨some input, paths⟩ with
  | error status =>
      refine ⟨⟨memo, found, flagged, fun _ _ => rfl⟩, ?_, fun _ _ _ _ _ read => read⟩
      intro db' impossible
      cases impossible
  | ok db' =>
      obtain ⟨input', memo', user, update, admitted, committed⟩ := updateMemo_accepted.mp accepted
      obtain rfl : input' = input := Option.some.inj admitted.given.symm
      obtain ⟨memoUID, named', found'⟩ := admitted.found
      obtain rfl : memo' = memo := by
        rw [named] at named'
        injection named' with same
        rw [← same, found] at found'
        exact (Option.some.inj found').symm
      obtain ⟨tables, anonymous, row, stored, updated⟩ := committed.updated admitted
      have after : getMemo db'.toState memo'.uid = some row := by
        rw [← updated.uid, getMemo_uid stored, if_pos]
        exact updated.deletedTs.trans (mem_of_getMemo found).2.1
      have hides : row.payload.hidden = true → row.visibility = .Public := by
        intro hidden
        rw [updated.payload, hidden_settlePayload] at hidden
        rw [updated.visibility, if_pos hidden]
      refine ⟨⟨row, after, hides, ?_⟩, ?_, ?_⟩
      · intro unlisted unhidden
        have placed := placed_of_placeUpdate committed.placed
        have absent : paths.contains .visibility = false := by
          rw [Bool.eq_false_iff]
          exact fun h => unlisted (List.contains_iff_mem.mp h)
        rw [updated.visibility, masked_hidden unhidden, masked_visibility unhidden,
          placed.sameAudience absent]
        split
        · rename_i hidden
          exact (flagged hidden).symm
        · rfl
      · intro db'' same listed hidden
        injection same with same
        rw [← same]
        refine ⟨row, after, hides ?_⟩
        rw [updated.payload, hidden_settlePayload]
        refine masked_of_listed (P := fun pending => pending.nextMemo.payload.hidden = true) listed
          (fun _ => hidden) ?_
        intro pending path kept
        cases path with
        | hidden => exact hidden
        | publishTime =>
            rw [effect_publishTime]
            exact kept
        | _ => exact kept
      · intro asks t viewerID later other read
        exact canRead_of_updated asks flagged found admitted committed later other read

/-! ### A memo that is hidden -/

def secretMemo : MemoRow := .withDefaults 7 "lunch" 4 .Private none

def secretTables : Tables :=
  { pollTables with
    users := ⟨[{ UserRow.withDefaults 4 "ivo" with role := .Admin }, .withDefaults 5 "lea"],
      by decide, by decide⟩
    memos := ⟨[secretMemo], by decide, by decide⟩ }

theorem readers_not_added_pinned :
    ¬ CanRead plainService (plainService.tablesAfter secretTables 50 4 false
      ⟨some { name := "memos/lunch", pinned := true }, [.pinned]⟩) 60 5 "lunch" := by
  intro read
  have before : CanRead plainService secretTables 60 5 "lunch" := by
    refine (readers_not_added plainService secretTables 50 4 false
      { name := "memos/lunch", pinned := true } [.pinned] secretMemo rfl rfl
      (fun hidden => by cases hidden)).2.2 ?_ 60 5 (by decide) ?_ read
    · constructor
      all_goals
        intro listed
        cases listed with
        | tail _ none => cases none
    · rintro ⟨space, -⟩
      cases space
  cases before

theorem hidden_memo_shown : ∃ after,
    plainService.updateMemo secretTables 50 4 false
      ⟨some { name := "memos/lunch", hidden := true }, [.hidden]⟩ = .ok after ∧
    ¬ CanRead plainService secretTables 60 0 "lunch" ∧
    CanRead plainService after 60 0 "lunch" := by
  refine ⟨_, rfl, ?_, rfl⟩
  intro read
  cases read

end Memos.Api

/-
What a collection asks and what reading a memo asks.

A collection is a query and a filter.  The query asks for the audience as a predicate,
which was shown to be the read policy; the filter looks at the payload and asks for what
reading a memo asks in front of that policy, and for more: a hidden memo may be read by
whoever has its name.  What the filter does not know is the category of a memo.
-/

namespace Memos.Api

open Store Access Fileserver

theorem eq_of_uid {state : State} {memo other : MemoRow} (there : memo ∈ state.memos)
    (there' : other ∈ state.memos) (same : memo.uid = other.uid) : memo = other := by
  refine Keyed.Table.eq_of_clash there there' ?_ ?_
  · simp [MemoRow.schema, same]
  · simp [MemoRow.schema, same]

theorem buildMemoName_inj {uid uid' : String} (h : buildMemoName uid = buildMemoName uid') :
    uid = uid' :=
  (String.append_right_inj _).mp h

def categoryAdmits (service : APIV1Service) (viewer : Option UserRow) (memo : MemoRow) : Bool :=
  match inaccessibleMemoCategories service.library service.memoCategoriesJson viewer with
  | .error _ => false
  | .ok deniedCategories => memoVisibleInCategories memo deniedCategories

section Viewers

variable {state : State} {authUserID : Int} {viewer : Option UserRow}

theorem resolveMemoAccessScope_fetched (fetched : fetchCurrentUser state authUserID = .ok viewer) :
    resolveMemoAccessScope state authUserID = .ok
      (newMemoAccessScope viewer (if viewer.isNone then state.allowsAnonymousAccess else true),
        viewer) := by
  unfold resolveMemoAccessScope
  rw [fetched]

/-- The query lets through the audience of a memo, if the memo is there. -/
theorem isTrue_predicate_fetched (fetched : fetchCurrentUser state authUserID = .ok viewer)
    (memo : MemoRow) :
    (sqliteMemoAccessPredicate state (newMemoAccessScope viewer
        (if viewer.isNone then state.allowsAnonymousAccess else true)) memo).isTrue
      = (inAudience state viewer memo && decide (memo.deletedTs = none)) := by
  cases viewer with
  | none => exact isTrue_predicate_visitor state _ memo
  | some user =>
      obtain ⟨-, normal⟩ := normalUser_of_fetched fetched
      exact isTrue_predicate_user state user memo normal

end Viewers

/-- What is asked in front of the read policy: the filter, and the category. -/
theorem withheld_of_visible {service : APIV1Service} {now : Int} {viewer : Option UserRow}
    {memo : MemoRow} (ordinary : isSuperUser viewer = false)
    (visible : memoVisibleInCollection now memo viewer = true) :
    withheld service.library service.memoCategoriesJson now viewer memo
      = !categoryAdmits service viewer memo := by
  unfold memoVisibleInCollection at visible
  rw [ordinary, if_neg Bool.false_ne_true] at visible
  have shown : memo.payload.quarantined = false := by
    by_contra quarantined
    rw [if_pos (by simpa using quarantined)] at visible
    cases visible
  rw [shown, if_neg Bool.false_ne_true] at visible
  have published : (memoIsUnpublished memo now
      && viewer.all fun viewer => decide (memo.creatorID ≠ viewer.id)) = false := by
    cases unpublished : memoIsUnpublished memo now with
    | false => rfl
    | true =>
        rw [unpublished, if_pos rfl] at visible
        cases viewer with
        | none => cases visible
        | some user =>
            rw [Option.any_some, decide_eq_true_eq] at visible
            simp [visible]
  unfold withheld categoryAdmits
  rw [shown, published, Bool.false_or, Bool.false_or]
  cases inaccessibleMemoCategories service.library service.memoCategoriesJson viewer with
  | error e => rfl
  | ok deniedCategories => rfl

theorem canRead_of_visible {service : APIV1Service} {db : Tables} {now authUserID : Int}
    {viewer : Option UserRow} {memo : MemoRow}
    (fetched : fetchCurrentUser db.toState authUserID = .ok viewer)
    (ordinary : isSuperUser viewer = false) (stored : memo ∈ db.memos)
    (visible : memoVisibleInCollection now memo viewer = true) :
    CanRead service db now authUserID memo.uid ↔
      memo.deletedTs = none ∧ inAudience db.toState viewer memo = true ∧
        categoryAdmits service viewer memo = true := by
  unfold CanRead
  rw [checkMemoReadAccess_ok _ _ _ fetched ordinary stored, withheld_of_visible ordinary visible,
    Bool.not_eq_false']

end Memos.Api

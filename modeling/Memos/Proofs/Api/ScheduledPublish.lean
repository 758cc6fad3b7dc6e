/-
A scheduled memo that has been published stays published.

From its time on a scheduled memo is published whether or not the publisher has passed,
and what keeps it so is that nobody writes another time into its payload.  Every payload
that is written is made from one that was read, and whatever is in flight may be written
last; so the invariant is about the copies too: the stored row and every copy that a
request or a pass still holds have the time the memo was scheduled for.

One branch breaks it.  A request that finds the draft due, because the publisher had not
passed when it read the memo, takes the time away and leaves the mark of the draft;
whatever the request was about, the memo is an unscheduled draft afterwards.
-/
import Memos.Api.ScheduledPublish
import Memos.Proofs.Api.PayloadWriters

namespace Memos.Api.Publication

open Store Access Fileserver Runs

/-! ### Which steps are meant -/

/-- The mask leaves alone when and for whom the memo is published. -/
def keepsPublication (paths : List UpdatePath) : Bool :=
  !paths.contains .draft && !paths.contains .publishTime && !paths.contains .visibility
    && !paths.contains .state

/-- A draft that is published only because its time has come. -/
def dueDraft (now : Int) (memo : MemoRow) : Bool :=
  memo.payload.draft && decide (0 < memo.payload.publishTs) && decide (memo.payload.publishTs ≤ now)

section Service

variable (service : APIV1Service)

def named (db : Tables) (request : UpdateMemoRequest) : Option MemoRow :=
  request.memo.bind fun input =>
    match service.ExtractMemoUIDFromName input.name with
    | .ok memoUID => getMemo db.toState memoUID
    | .error _ => none

/-- The publisher is about to take the memo's time away, for the review has rejected it. -/
def rejects (id : Int) (s : Server) : Event → Bool
  | .write i =>
      match s.system.writers[i]? with
      | some (.publishing nowSec (memo :: _)) =>
          decide (memo.id = id) && isDue nowSec memo && !service.passesReview s.system.db memo
      | _ => false
  | _ => false

/-- A request reads the memo before the publisher has passed, and its time has come when the
request looks at the clock again. -/
def readsDueDraft (id : Int) (s : Server) : Event → Bool
  | .updateMemo _ _ request later =>
      (named service s.system.db request).any fun memo =>
        decide (memo.id = id) && dueDraft (s.clock + later) memo
  | _ => false

def edits : Event → Bool
  | .updateMemo _ _ request _ => keepsPublication request.updateMask
  | _ => true

/-- A step as any other, but for the edit of a draft that is due. -/
def Timely (id : Int) (s : Server) (e : Event) : Prop :=
  (edits e && !rejects service id s e && !readsDueDraft service id s e) = true

instance (id : Int) (s : Server) (e : Event) : Decidable (Timely service id s e) :=
  inferInstanceAs (Decidable (_ = true))

end Service

/-! ### Rows -/

/-- A later row of the same memo, with the same time and no smaller audience. -/
structure Continues (memo row : MemoRow) : Prop where
  uid : row.uid = memo.uid
  creatorID : row.creatorID = memo.creatorID
  deletedTs : row.deletedTs = memo.deletedTs
  rowStatus : row.rowStatus = memo.rowStatus
  quarantined : row.payload.quarantined = memo.payload.quarantined
  publishTs : row.payload.publishTs = memo.payload.publishTs
  /-- Hiding a memo makes it public. -/
  visibility : row.visibility = memo.visibility ∨ row.visibility = .Public
  spaceID : row.visibility = .SpaceAudience → row.spaceID = memo.spaceID

/-- What may be written over a memo that was read so. -/
structure Harmless (memo : MemoRow) (update : UpdateMemo) : Prop where
  uid : update.uid = none
  rowStatus : update.rowStatus = none
  visibility : update.visibility = none ∨ update.visibility = some .Public
  spaceID : memo.visibility = .SpaceAudience →
    (if update.clearSpace then none
      else if update.spaceID.isSome then update.spaceID else memo.spaceID) = memo.spaceID
  payload : ∀ payload, update.payload = some payload →
    payload.quarantined = memo.payload.quarantined ∧ payload.publishTs = memo.payload.publishTs

section Rows

variable {memo row row' : MemoRow} {update : UpdateMemo}

theorem Continues.refl (memo : MemoRow) : Continues memo memo :=
  ⟨rfl, rfl, rfl, rfl, rfl, rfl, .inl rfl, fun _ => rfl⟩

theorem Continues.edited (memo : MemoRow) (editor : Option Int) :
    Continues memo { memo with lastEditorID := editor } :=
  ⟨rfl, rfl, rfl, rfl, rfl, rfl, .inl rfl, fun _ => rfl⟩

/-- A row that members of a Space read has not been public in between. -/
theorem Continues.space (continues : Continues memo row) (space : row.visibility = .SpaceAudience) :
    memo.visibility = .SpaceAudience := by
  rcases continues.visibility with same | isPublic
  · exact same.symm.trans space
  · rw [isPublic] at space
    cases space

theorem Continues.trans (first : Continues memo row) (second : Continues row row') :
    Continues memo row' where
  uid := second.uid.trans first.uid
  creatorID := second.creatorID.trans first.creatorID
  deletedTs := second.deletedTs.trans first.deletedTs
  rowStatus := second.rowStatus.trans first.rowStatus
  quarantined := second.quarantined.trans first.quarantined
  publishTs := second.publishTs.trans first.publishTs
  visibility := by
    rcases second.visibility with same | isPublic
    · rw [same]
      exact first.visibility
    · exact .inr isPublic
  spaceID space := (second.spaceID space).trans (first.spaceID (second.space space))

/-- What a harmless update makes of a row that goes on from the one it was made for. -/
theorem Harmless.continues (harmless : Harmless memo update) (continues : Continues memo row)
    (editor : Option Int) :
    Continues row { update.apply row with lastEditorID := editor } where
  uid := by
    show update.uid.getD row.uid = row.uid
    rw [harmless.uid]
    rfl
  creatorID := rfl
  deletedTs := rfl
  rowStatus := by
    show update.rowStatus.getD row.rowStatus = row.rowStatus
    rw [harmless.rowStatus]
    rfl
  quarantined := by
    show (update.payload.getD row.payload).quarantined = _
    cases written : update.payload with
    | none => rfl
    | some payload => exact (harmless.payload payload written).1.trans continues.quarantined.symm
  publishTs := by
    show (update.payload.getD row.payload).publishTs = _
    cases written : update.payload with
    | none => rfl
    | some payload => exact (harmless.payload payload written).2.trans continues.publishTs.symm
  visibility := by
    show update.visibility.getD row.visibility = row.visibility ∨ _
    rcases harmless.visibility with none | isPublic
    · rw [none]
      exact .inl rfl
    · refine .inr ?_
      show update.visibility.getD row.visibility = .Public
      rw [isPublic]
      rfl
  spaceID := by
    intro space
    have space : update.visibility.getD row.visibility = .SpaceAudience := space
    rcases harmless.visibility with none | isPublic
    · rw [none] at space
      have place := continues.spaceID space
      show (if update.clearSpace then Option.none
        else if update.spaceID.isSome then update.spaceID else row.spaceID) = row.spaceID
      rw [place]
      exact harmless.spaceID (continues.space space)
    · rw [isPublic] at space
      cases space

/-- A row whose time has come is published. -/
theorem published_of_continues {T now : Int} (scheduled : memo.payload.publishTs = T)
    (positive : 0 < T) (due : T ≤ now) (continues : Continues memo row) :
    memoIsUnpublished row now = false := by
  have time : row.payload.publishTs = T := continues.publishTs.trans scheduled
  unfold memoIsUnpublished
  rw [time]
  have set : T ≠ 0 := by omega
  have past : ¬ now < T := by omega
  simp [set, past]

/-- Read from the later row to the earlier one, the audience has not become wider. -/
theorem Continues.narrower (continues : Continues memo row) : Narrower row memo where
  creatorID := continues.creatorID.symm
  rowStatus := .inl continues.rowStatus.symm
  visibility := by
    rcases continues.visibility with same | isPublic
    · exact .inl same.symm
    · exact .inr (.inl isPublic)
  spaceID space _ := (continues.spaceID space).symm

end Rows

/-! ### Requests -/

section Requests

variable {service : APIV1Service} {db db' : Tables} {now settledAt authUserID : Int} {revisionForce : Bool}
  {paths : List UpdatePath} {input : ProtoMemo} {memo : MemoRow} {user : UserRow}
  {update : UpdateMemo}

theorem not_mem_of_contains {path : UpdatePath} (absent : paths.contains path = false) :
    path ∉ paths := by
  intro listed
  rw [List.contains_iff_mem.mpr listed] at absent
  cases absent

theorem unlisted_of_keepsPublication (keeps : keepsPublication paths = true) :
    .draft ∉ paths ∧ .publishTime ∉ paths ∧ .visibility ∉ paths ∧ .state ∉ paths := by
  unfold keepsPublication at keeps
  simp only [Bool.and_eq_true, Bool.not_eq_true'] at keeps
  obtain ⟨⟨⟨draft, publishTime⟩, visibility⟩, state⟩ := keeps
  exact ⟨not_mem_of_contains draft, not_mem_of_contains publishTime,
    not_mem_of_contains visibility, not_mem_of_contains state⟩

/-- A mask that leaves the publication alone keeps the mark and the time. -/
theorem masked_publication (draft : .draft ∉ paths) (publishTime : .publishTime ∉ paths) :
    (service.masked now user input paths update memo).nextMemo.payload.draft
        = memo.payload.draft ∧
      (service.masked now user input paths update memo).nextMemo.payload.publishTs
        = memo.payload.publishTs := by
  refine masked_invariant (P := fun pending => pending.nextMemo.payload.draft = memo.payload.draft ∧
    pending.nextMemo.payload.publishTs = memo.payload.publishTs) ?_ ⟨rfl, rfl⟩
  intro pending path listed same
  cases path with
  | draft => exact absurd listed draft
  | publishTime => exact absurd listed publishTime
  | _ => exact same

theorem masked_public (visibility : .visibility ∉ paths) (placed : Placed memo input paths update) :
    (service.masked now user input paths update memo).update.visibility = none ∨
      (service.masked now user input paths update memo).update.visibility = some .Public := by
  refine masked_invariant (P := fun pending => pending.update.visibility = none ∨
    pending.update.visibility = some .Public) ?_ (.inl (placed.sameAudience ?_))
  · intro pending path _ same
    cases path with
    | hidden => exact .inr rfl
    | _ => exact same
  · rw [Bool.eq_false_iff]
    exact fun h => visibility (List.contains_iff_mem.mp h)

/-- **A request** that leaves the publication alone, and finds no draft that is due, is
harmless. -/
theorem harmless_of_request (keeps : keepsPublication paths = true)
    (timely : dueDraft settledAt memo = false)
    (h : service.placeUpdate db.toState user memo input paths revisionForce = .ok update) :
    Harmless memo ((service.masked now user input paths update memo).settle settledAt).update := by
  obtain ⟨draft, publishTime, visibility, state⟩ := unlisted_of_keepsPublication keeps
  have placed := placed_of_placeUpdate h
  have kept : (service.masked now user input paths update memo).nextMemo.payload.draft
        = memo.payload.draft ∧
      (service.masked now user input paths update memo).nextMemo.payload.publishTs
        = memo.payload.publishTs := masked_publication draft publishTime
  constructor
  · exact settled_place.2.1.trans placed.uid
  · rw [settle_rowStatus]
    exact (masked_rowStatus placed).2 state
  · rw [settle_visibility]
    split
    · exact .inr rfl
    · exact masked_public visibility placed
  · intro space
    rw [settled_place.2.2.1, settled_place.2.2.2]
    obtain ⟨moved, unmoved⟩ := spaceID_of_placeUpdate h
    by_cases listed : .space ∈ paths
    · have same := unmoved space visibility listed
      rcases moved listed with ⟨cleared, none⟩ | ⟨target, -, kept, target'⟩
      · rw [cleared, ← same, none]
        rfl
      · rw [kept, target', ← same, target']
        rfl
    · have absent : paths.contains .space = false := by
        rw [Bool.eq_false_iff]
        exact fun h => listed (List.contains_iff_mem.mp h)
      rw [(placed.samePlace absent).1, (placed.samePlace absent).2]
      rfl
  · intro payload written
    rw [settled_payload placed written, quarantined_settlePayload, masked_quarantined]
    refine ⟨rfl, ?_⟩
    unfold settlePayload
    rw [kept.1, kept.2]
    have waiting : ¬ (memo.payload.draft && decide (0 < memo.payload.publishTs)
        && decide (memo.payload.publishTs ≤ settledAt)) = true := Bool.eq_false_iff.mp timely
    rw [if_neg waiting]
    exact kept.2

end Requests

/-! ### Writers -/

section Writers

variable {service : APIV1Service} {db db' : Tables} {now id : Int} {row row' : MemoRow}
  {writer : Writer}

/-- What a request or a pass holds of the memo, beside its stored row. -/
def Carries (id : Int) (row : MemoRow) : Writer → Prop
  | .updating _ _ memo _ _ pending =>
      pending.update.id = memo.id ∧
        (memo.id = id → Harmless memo pending.update ∧ Continues memo row)
  | .publishing _ memos => ∀ memo ∈ memos, memo.id = id → Continues memo row
  | .ended => True
  | _ => False

theorem Carries.mono (carries : Carries id row writer) (continues : Continues row row') :
    Carries id row' writer := by
  cases writer with
  | updating authUserID user memo input paths pending =>
      exact ⟨carries.1, fun same => ⟨(carries.2 same).1, (carries.2 same).2.trans continues⟩⟩
  | publishing nowSec memos => exact fun memo there same => (carries memo there same).trans continues
  | ended => trivial
  | reporting comment memo creator => exact carries.elim
  | quarantining memo => exact carries.elim
  | restoring memo => exact carries.elim

theorem Carries.next (carries : Carries id row writer) : Carries id row writer.next := by
  cases writer with
  | publishing nowSec memos =>
      cases memos with
      | nil => trivial
      | cons memo memos => exact fun other there => carries other (List.mem_cons_of_mem _ there)
  | _ => trivial

theorem harmless_published {memo : MemoRow} (passes : service.passesReview db memo = true) :
    Harmless memo (payloadUpdate memo (service.published db memo)) := by
  refine ⟨rfl, rfl, .inl rfl, fun _ => rfl, fun payload written => ?_⟩
  injection written with written
  rw [← written]
  unfold APIV1Service.published
  rw [passes]
  exact ⟨rfl, rfl⟩

/-- **A write**, other than a rejection: the row of the memo goes on. -/
theorem continues_of_write (carries : Carries id row writer)
    (accepted : ∀ nowSec memo memos, writer = .publishing nowSec (memo :: memos) → memo.id = id →
      isDue nowSec memo = true → service.passesReview db memo = true)
    (editor : Option Int) :
    Continues row
      { afterUpdate id row (service.nextUpdate db writer) with lastEditorID := editor } := by
  cases writer with
  | updating authUserID user memo input paths pending =>
      obtain ⟨target, here⟩ := carries
      show Continues row { (if id = pending.update.id then _ else row) with lastEditorID := editor }
      by_cases same : id = pending.update.id
      · obtain ⟨harmless, continues⟩ := here (target.symm.trans same.symm)
        rw [if_pos same]
        exact harmless.continues continues editor
      · rw [if_neg same]
        exact .edited row editor
  | publishing nowSec memos =>
      cases memos with
      | nil => exact .edited row editor
      | cons memo memos =>
          unfold APIV1Service.nextUpdate
          dsimp only
          by_cases due : isDue nowSec memo = true
          · rw [if_pos due]
            show Continues row { (if id = memo.id then _ else row) with lastEditorID := editor }
            by_cases same : id = memo.id
            · rw [if_pos same]
              have passes := accepted nowSec memo memos rfl same.symm due
              exact (harmless_published passes).continues
                (carries memo List.mem_cons_self same.symm) editor
            · rw [if_neg same]
              exact .edited row editor
          · rw [if_neg due]
            exact .edited row editor
  | ended => exact .edited row editor
  | reporting comment memo creator => exact carries.elim
  | quarantining memo => exact carries.elim
  | restoring memo => exact carries.elim

end Writers

/-! ### Steps -/

section Steps

variable {service : APIV1Service} {s s' t u : Server} {id : Int} {first row row' : MemoRow}
  {e : Event} {a : WriterAction}

/-- What holds along the way: the stored row goes on from the first one, and so do all
copies. -/
structure Holds (id : Int) (first : MemoRow) (s : Server) (row : MemoRow) : Prop where
  stored : s.system.db.memos.find? id = some row
  continues : Continues first row
  writers : ∀ writer ∈ s.system.writers, Carries id row writer

/-- Nothing but memos has been written, and no time has been taken back. -/
structure Later (s s' : Server) : Prop where
  tables : SameTables s'.system.db.toState s.system.db.toState
  anonymous : s'.system.db.allowsAnonymousAccess = s.system.db.allowsAnonymousAccess
  clock : s.clock ≤ s'.clock

theorem Later.of_same (db : s'.system.db = s.system.db) (clock : s.clock ≤ s'.clock) :
    Later s s' where
  tables := by
    rw [db]
    exact ⟨rfl, rfl, rfl, rfl⟩
  anonymous := by rw [db]
  clock := clock

theorem Later.trans (first : Later s t) (second : Later t u) : Later s u where
  tables :=
    { users := second.tables.users.trans first.tables.users
      spaces := second.tables.spaces.trans first.tables.spaces
      members := second.tables.members.trans first.tables.members
      shares := second.tables.shares.trans first.tables.shares }
  anonymous := second.anonymous.trans first.anonymous
  clock := Int.le_trans first.clock second.clock

theorem Holds.add (holds : Holds id first s row) {writer : Writer} (new : Carries id row writer) :
    Holds id first { s with system := { s.system with writers := s.system.writers ++ [writer] } } row where
  stored := holds.stored
  continues := holds.continues
  writers := List.forall_mem_append.mpr ⟨holds.writers, List.forall_mem_singleton.mpr new⟩

theorem Holds.set (holds : Holds id first s row) (i : Nat) {writer : Writer}
    (new : Carries id row writer) : Holds id first { s with system := s.system.setWriter i writer } row where
  stored := holds.stored
  continues := holds.continues
  writers := Debts.forall_set holds.writers new

theorem Holds.row_eq (holds : Holds id first s row) {memo : MemoRow}
    (there : memo ∈ s.system.db.memos) (same : memo.id = id) : memo = row := by
  have stored := Keyed.Table.find?_eq_some.mpr ⟨there, same⟩
  exact Option.some.inj (stored.symm.trans holds.stored)

theorem readsDueDraft_eq {authUserID : Int} {revisionForce : Bool} {request : UpdateMemoRequest}
    {later : Nat} {input : ProtoMemo} {memoUID : String} {memo : MemoRow} (given : request.memo = some input)
    (name : service.ExtractMemoUIDFromName input.name = .ok memoUID)
    (found : getMemo s.system.db.toState memoUID = some memo) :
    readsDueDraft service id s (.updateMemo authUserID revisionForce request later)
      = (decide (memo.id = id) && dueDraft (s.clock + later) memo) := by
  unfold readsDueDraft named
  simp only [given, Option.bind_some, name, found, Option.any_some]

theorem Holds.request (holds : Holds id first s row) {authUserID : Int} {revisionForce : Bool}
    {request : UpdateMemoRequest} {later : Nat} {writer : Writer}
    (timely : Timely service id s (.updateMemo authUserID revisionForce request later))
    (begun : service.beginUpdate s.system.db s.clock (s.clock + later) authUserID revisionForce
      request = .ok writer) :
    Carries id row writer := by
  unfold Timely at timely
  simp only [Bool.and_eq_true, Bool.not_eq_true'] at timely
  obtain ⟨⟨keeps, -⟩, early⟩ := timely
  obtain ⟨input, memoUID, memo, user, update, given, name, found, placed, -, rfl⟩ :=
    beginUpdate_read begun
  refine ⟨settled_place.1.trans (placed_of_placeUpdate placed).id, fun same => ?_⟩
  rw [readsDueDraft_eq given name found, decide_eq_true same, Bool.true_and] at early
  rw [← holds.row_eq (mem_of_getMemo found).1 same]
  exact ⟨harmless_of_request keeps early placed, .refl memo⟩

theorem Holds.scan (holds : Holds id first s row) :
    Carries id row (.publishing s.clock (scheduledMemos s.system.db s.clock)) := by
  intro memo there same
  have there : memo ∈ s.system.db.memos.select _ := (List.mem_insertionSort _).mp there
  rw [holds.row_eq (Keyed.Table.mem_select.mp there).1 same]
  exact .refl row

theorem Holds.write (holds : Holds id first s row) {i : Nat} {writer : Writer} {db : Tables}
    (timely : Timely service id s (.write i)) (here : s.system.writers[i]? = some writer)
    (written : service.writePayload s.system.db s.clock writer = .ok db) :
    ∃ row', Holds id first { s with system := { s.system.setWriter i writer.next with db } } row' ∧
      Continues row row' ∧ Later s { s with system := { s.system.setWriter i writer.next with db } } := by
  have carries := holds.writers writer (List.mem_of_getElem? here)
  obtain ⟨tables, anonymous, rows⟩ := writePayload_row written
  obtain ⟨editor, stored⟩ := rows id row holds.stored
  have accepted : ∀ nowSec memo memos, writer = .publishing nowSec (memo :: memos) →
      memo.id = id → isDue nowSec memo = true →
        service.passesReview s.system.db memo = true := by
    intro nowSec memo memos is same due
    unfold Timely rejects at timely
    dsimp only at timely
    rw [here, is] at timely
    simp only [same, due, decide_true, Bool.true_and, Bool.and_eq_true, Bool.not_eq_true',
      Bool.not_eq_false'] at timely
    exact timely.1.2
  have continues := continues_of_write carries accepted editor
  refine ⟨_, ⟨stored, holds.continues.trans continues, ?_⟩, continues, tables, anonymous,
    Int.le_refl _⟩
  exact fun other there => ((holds.set i carries.next).writers other there).mono continues

theorem act_cases (h : s.act service a = some s') :
    ∃ system, service.stepWriter s.system a = some system ∧ s' = { s with system } := by
  obtain ⟨system, next, rfl⟩ := Option.map_eq_some_iff.mp h
  exact ⟨system, next, rfl⟩

/-- **A step** keeps what holds, and the row goes on. -/
theorem Holds.step (holds : Holds id first s row) (timely : Timely service id s e)
    (h : step service s e = some s') :
    ∃ row', Holds id first s' row' ∧ Continues row row' ∧ Later s s' := by
  cases e with
  | tick seconds =>
      injection h with h
      rw [← h]
      refine ⟨row, ⟨holds.stored, holds.continues, holds.writers⟩, .refl row, .of_same rfl ?_⟩
      show s.clock ≤ s.clock + seconds
      omega
  | updateMemo authUserID revisionForce request later =>
      obtain ⟨system, next, rfl⟩ := act_cases h
      unfold APIV1Service.stepWriter at next
      dsimp only at next
      split at next
      · rename_i writer begun
        injection next with next
        rw [← next]
        exact ⟨row, holds.add (holds.request timely begun), .refl row, .of_same rfl (Int.le_refl _)⟩
      · injection next with next
        rw [← next]
        exact ⟨row, holds, .refl row, .of_same rfl (Int.le_refl _)⟩
  | publishScheduledMemos =>
      obtain ⟨system, next, rfl⟩ := act_cases h
      injection next with next
      rw [← next]
      exact ⟨row, holds.add holds.scan, .refl row, .of_same rfl (Int.le_refl _)⟩
  | write i =>
      obtain ⟨system, next, rfl⟩ := act_cases h
      unfold APIV1Service.stepWriter at next
      dsimp only at next
      split at next
      · cases next
      · cases next
      · cases next
      · rename_i writer _ _ here
        split at next
        · rename_i db written
          injection next with next
          rw [← next]
          exact holds.write timely here written
        · injection next with next
          rw [← next]
          have carries := holds.writers writer (List.mem_of_getElem? here)
          exact ⟨row, holds.set i carries.next, .refl row, .of_same rfl (Int.le_refl _)⟩
  | stop i =>
      obtain ⟨system, next, rfl⟩ := act_cases h
      injection next with next
      rw [← next]
      exact ⟨row, holds.set i trivial, .refl row, .of_same rfl (Int.le_refl _)⟩

/-- **A run** keeps what holds, and the row goes on. -/
theorem Holds.run (holds : Holds id first s row)
    (run : Run (Publication.step service) (Timely service id) s t) :
    ∃ row', Holds id first t row' ∧ Continues row row' ∧ Later s t := by
  refine run.invariant (P := fun t => ∃ row', Holds id first t row' ∧ Continues row row' ∧ Later s t)
    ⟨row, holds, .refl row, .of_same rfl (Int.le_refl _)⟩ ?_
  rintro t u e ⟨row', holds', continues, later⟩ timely next
  obtain ⟨row'', holds'', continues', later'⟩ := holds'.step timely next
  exact ⟨row'', holds'', continues.trans continues', later.trans later'⟩

end Steps

/-! ### The result -/

section Readers

variable {service : APIV1Service} {t u : Server} {row row' : MemoRow} {T : Int}

/-- Whoever reads the memo reads it later, unless its category excludes them by then. -/
theorem canRead_later (here : row ∈ t.system.db.memos) (here' : row' ∈ u.system.db.memos)
    (continues : Continues row row') (later : Later t u)
    (published : memoIsUnpublished row' u.clock = false) {viewerID : Int}
    (admits : ∀ viewer, fetchCurrentUser u.system.db.toState viewerID = .ok viewer →
      categoryAdmits service viewer row' = true)
    (h : CanRead service t.system.db t.clock viewerID row.uid) :
    CanRead service u.system.db u.clock viewerID row'.uid := by
  have fetch : fetchCurrentUser u.system.db.toState viewerID
      = fetchCurrentUser t.system.db.toState viewerID := by
    unfold fetchCurrentUser getUser
    rw [later.tables.users]
  obtain ⟨viewer, fetched⟩ := fetched_of_canRead h
  have fetched' := fetch.trans fetched
  cases ordinary : isSuperUser viewer with
  | true =>
      refine canRead_administrator fetched' ordinary ?_
      have live : row.deletedTs = none := by
        by_contra deleted
        unfold CanRead checkMemoReadAccess buildMemoReadContext at h
        rw [getMemo_uid here, if_neg deleted, fetched] at h
        cases h
      rw [getMemo_uid here', if_pos (continues.deletedTs.trans live)]
  | false =>
      unfold CanRead at h ⊢
      rw [checkMemoReadAccess_ok _ _ _ fetched ordinary here] at h
      rw [checkMemoReadAccess_ok _ _ _ fetched' ordinary here']
      obtain ⟨live, shown, open'⟩ := h
      refine ⟨continues.deletedTs.trans live, ?_, ?_⟩
      · rw [inAudience_congr later.tables later.anonymous]
        refine inAudience_of_narrower continues.narrower ?_ shown
        rintro ⟨space, changed⟩
        rcases continues.visibility with same | isPublic
        · rcases changed with visibility | rowStatus
          · exact absurd same.symm visibility
          · exact absurd continues.rowStatus.symm rowStatus
        · rw [isPublic] at space
          cases space
      · have admits := admits viewer fetched'
        unfold withheld at open' ⊢
        unfold categoryAdmits at admits
        simp only [Bool.or_eq_false_iff] at open' ⊢
        refine ⟨⟨continues.quarantined.trans open'.1.1, ?_⟩, ?_⟩
        · rw [published, Bool.false_and]
        · cases denied : inaccessibleMemoCategories service.library service.memoCategoriesJson
              viewer with
          | error e =>
              rw [denied] at admits
              cases admits
          | ok deniedCategories =>
              rw [denied] at admits
              dsimp only at admits ⊢
              rw [admits]
              rfl

/-- The same in collections, unless the memo is hidden by then. -/
theorem visible_later (continues : Continues row row')
    (published : memoIsUnpublished row' u.clock = false) {viewer : Option UserRow}
    (shown : row'.payload.hidden = true → row.payload.hidden = true)
    (unpublished : memoIsUnpublished row t.clock = false)
    (h : memoVisibleInCollection t.clock row viewer = true) :
    memoVisibleInCollection u.clock row' viewer = true := by
  unfold memoVisibleInCollection at h ⊢
  rw [published, continues.quarantined, continues.creatorID]
  rw [unpublished] at h
  cases hidden : row'.payload.hidden with
  | true =>
      rw [shown hidden] at h
      exact h
  | false =>
      split
      · rfl
      · rename_i ordinary
        rw [if_neg ordinary] at h
        split
        · rename_i quarantined
          rw [if_pos quarantined] at h
          exact h
        · rfl

end Readers

/-- **Scheduled memos stay published.**

Start with no request and no pass on its way, and take a memo that is scheduled for some
time.  Take any run of ticks, passes of the publisher, and requests whose masks name
neither `draft`, `publish_time`, `visibility` nor `state`, in which the review rejects the
memo never, and no request that has read the memo before the publisher has passed looks at
the clock again when its time has come.

From its time on the memo is published in every state of the run.  Whoever reads it in
one state reads it in every later one, unless the memo is put into a category that
excludes them; and it stays in the collections, unless it is hidden. -/
theorem published_kept (service : APIV1Service) {s t u : Server} {id : Int} {memo : MemoRow}
    (fresh : s.system.writers = []) (stored : s.system.db.memos.find? id = some memo)
    (scheduled : 0 < memo.payload.publishTs)
    (run : Run (step service) (Timely service id) s t) (due : memo.payload.publishTs ≤ t.clock)
    (rest : Run (step service) (Timely service id) t u) :
    ∃ row row', t.system.db.memos.find? id = some row ∧ u.system.db.memos.find? id = some row' ∧
      memoIsUnpublished row t.clock = false ∧ memoIsUnpublished row' u.clock = false ∧
      (∀ viewerID, CanRead service t.system.db t.clock viewerID row.uid →
        (∀ viewer, fetchCurrentUser u.system.db.toState viewerID = .ok viewer →
          categoryAdmits service viewer row' = true) →
        CanRead service u.system.db u.clock viewerID row'.uid) ∧
      ∀ viewer, memoVisibleInCollection t.clock row viewer = true →
        (row'.payload.hidden = true → row.payload.hidden = true) →
        memoVisibleInCollection u.clock row' viewer = true := by
  have start : Holds id memo s memo := by
    refine ⟨stored, .refl memo, ?_⟩
    rw [fresh]
    exact List.forall_mem_nil _
  obtain ⟨row, holds, -, -⟩ := start.run run
  obtain ⟨row', holds', continues, later⟩ := holds.run rest
  have published := published_of_continues rfl scheduled due holds.continues
  have published' := published_of_continues rfl scheduled (Int.le_trans due later.clock)
    holds'.continues
  have here := (Keyed.Table.find?_eq_some.mp holds.stored).1
  have here' := (Keyed.Table.find?_eq_some.mp holds'.stored).1
  exact ⟨row, row', holds.stored, holds'.stored, published, published',
    fun viewerID read admits => canRead_later here here' continues later published' admits read,
    fun viewer visible shown => visible_later continues published' shown published visible⟩

/-! ### A location -/

def lunch : MemoRow :=
  { MemoRow.withDefaults 7 "lunch" 5 .Public none with
    payload := { title := "", draft := true, publishTs := 100 } }

def lunchServer : Server where
  system :=
    { db :=
        { secretTables with
          users := ⟨[.withDefaults 5 "lea", .withDefaults 6 "mia"], by decide, by decide⟩
          memos := ⟨[lunch], by decide, by decide⟩ }
      writers := [] }
  clock := 50

def locateLunch (later : Nat) : Event :=
  .updateMemo 5 false ⟨some { name := "memos/lunch" }, [.location]⟩ later

theorem categoryAdmits_plainService (viewer : Option UserRow) (memo : MemoRow) :
    categoryAdmits plainService viewer memo = true := by
  have none : inaccessibleMemoCategories plainService.library plainService.memoCategoriesJson viewer
      = .ok [] := by
    unfold inaccessibleMemoCategories
    split
    · rfl
    · rfl
  unfold categoryAdmits
  rw [none]
  exact Bool.or_true _

theorem published_kept_lunch : ∃ t u,
    follow (step plainService) (Timely plainService 7) lunchServer
      [locateLunch 10, .write 0, .tick 60] = some t ∧
    follow (step plainService) (Timely plainService 7) t [.publishScheduledMemos, .write 1] = some u ∧
    CanRead plainService u.system.db u.clock 6 "lunch" := by
  obtain ⟨t, u, before, after, row, row', there, there', name, name', due, read⟩ : ∃ t u,
      follow (step plainService) (Timely plainService 7) lunchServer
        [locateLunch 10, .write 0, .tick 60] = some t ∧
      follow (step plainService) (Timely plainService 7) t
        [.publishScheduledMemos, .write 1] = some u ∧
      ∃ row row', t.system.db.memos.find? 7 = some row ∧ u.system.db.memos.find? 7 = some row' ∧
        row.uid = "lunch" ∧ row'.uid = "lunch" ∧ 100 ≤ t.clock ∧
        CanRead plainService t.system.db t.clock 6 row.uid :=
    ⟨_, _, rfl, rfl, _, _, rfl, rfl, rfl, rfl, by decide, rfl⟩
  refine ⟨t, u, before, after, ?_⟩
  obtain ⟨row₁, row₁', is, is', -, -, readers, -⟩ := published_kept plainService rfl rfl (by decide)
    (run_of_follow before) due (run_of_follow after)
  rw [there] at is
  rw [there'] at is'
  injection is with is
  injection is' with is'
  rw [← is, ← is', name'] at readers
  exact readers 6 read fun viewer _ => categoryAdmits_plainService viewer row'

/-- She does so ten seconds after the time, and before the publisher passes. -/
theorem edit_unpublishes : ∃ t u row row',
    follow (step plainService) (fun s e => (edits e && !rejects plainService 7 s e) = true)
      lunchServer [.tick 60] = some t ∧
    follow (step plainService) (fun s e => (edits e && !rejects plainService 7 s e) = true) t
      [locateLunch 0, .write 0] = some u ∧
    lunch.payload.publishTs ≤ t.clock ∧
    t.system.db.memos.find? 7 = some row ∧ u.system.db.memos.find? 7 = some row' ∧
    memoIsUnpublished row t.clock = false ∧ memoIsUnpublished row' u.clock = true ∧
    CanRead plainService t.system.db t.clock 6 "lunch" ∧
    ¬ CanRead plainService u.system.db u.clock 6 "lunch" :=
  ⟨_, _, _, _, rfl, rfl, by decide, rfl, rfl, rfl, rfl, rfl, nofun⟩

end Memos.Api.Publication

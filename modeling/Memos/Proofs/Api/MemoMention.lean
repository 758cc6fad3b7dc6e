/-
Who hears of a mention, and how often.

A dispatch asks the read policy whether a user may read the memo, as the API does, but not
whether the memo is withheld from them by quarantine, by being a draft or by its category.
So its messages go to readers exactly when nobody in the audience whom the memo mentions
anew is somebody that it or its context is withheld from.

A user who is mentioned before and after a change is not told again, since both contents
are looked up at one moment.  Only a memo that comes out of the drafts is announced as if it
were new.  A request that finds the memo published passes over the users it has mentioned;
so one who has been told is not told again, as long as the mention stays and the memo does
not go back to the drafts.  The end of a request that straddles the publish time announces
a memo that the publisher is still to announce.
-/
import Memos.Api.MemoMention
import Memos.Proofs.Api.MemoCreate
import Memos.Proofs.Api.MemoAudience
import Memos.Proofs.Api.PayloadWriters
import Mathlib.Data.List.Count

namespace Memos.Api.Mentions

open Store Access Fileserver Runs

variable {service : APIV1Service} {extractMentions : String → Except String (List String)}

/-! ### Mentions -/

def mentionNames (extractMentions : String → Except String (List String)) (content : String) :
    List String :=
  if content = "" then [] else (extractMentions content).toOption.getD []

def mentioned (extractMentions : String → Except String (List String)) (state : State)
    (content : String) : List UserRow :=
  state.users.select fun user =>
    (mentionNames extractMentions content).contains user.username
      && decide (user.rowStatus = .Normal)

theorem resolveMentionTargets_ok {state : State} {content : String} {targets : List UserRow}
    (h : resolveMentionTargets extractMentions state content = .ok targets) :
    targets = mentioned extractMentions state content := by
  have nobody : ∀ names : List String, names = [] →
      state.users.select (fun user => names.contains user.username
        && decide (user.rowStatus = .Normal)) = [] := by
    rintro names rfl
    exact List.filter_eq_nil_iff.mpr fun user _ => by simp
  unfold resolveMentionTargets at h
  unfold mentioned mentionNames
  split at h
  · rename_i empty
    injection h with h
    rw [← h, if_pos empty, nobody _ rfl]
  · rename_i nonempty
    rw [if_neg nonempty]
    cases parsed : extractMentions content with
    | error e =>
        rw [parsed] at h
        cases h
    | ok names =>
        rw [parsed] at h
        dsimp only at h
        split at h
        · rename_i none
          injection h with h
          rw [← h]
          exact (nobody _ (List.isEmpty_iff.mp none)).symm
        · injection h with h
          exact h.symm

theorem mem_mentioned {state : State} {content : String} {user : UserRow} :
    user ∈ mentioned extractMentions state content ↔
      user ∈ state.users ∧ user.username ∈ mentionNames extractMentions content ∧
        user.rowStatus = .Normal := by
  unfold mentioned
  rw [Keyed.Table.mem_select, Bool.and_eq_true, List.contains_iff_mem, decide_eq_true_eq]

def Dispatch.messages (extractMentions : String → Except String (List String))
    (dispatch : Dispatch) : List Inbox :=
  (dispatchMemoMentionNotifications extractMentions dispatch).toOption.getD []

/-- A user a dispatch tells of the memo. -/
structure Tells (extractMentions : String → Except String (List String)) (dispatch : Dispatch)
    (target : UserRow) : Prop where
  now : target ∈ mentioned extractMentions dispatch.db.toState dispatch.memo.content
  before : target ∉ mentioned extractMentions dispatch.db.toState dispatch.previousContent
  told : shouldSkipMentionInbox dispatch.db.toState
    (resolveMentionContextFacts dispatch.db.toState dispatch.memo dispatch.relatedMemo) target
    dispatch.memo dispatch.relatedMemo = false

variable (extractMentions) in
/-- A dispatch tells all it has to, each once, or nobody, where a content cannot be parsed. -/
theorem messages_eq (dispatch : Dispatch) :
    dispatch.messages extractMentions = [] ∨
      ∃ told : List UserRow, told.Sublist dispatch.db.users.rows ∧
        (∀ target, target ∈ told ↔ Tells extractMentions dispatch target) ∧
        dispatch.messages extractMentions
          = told.map (mentionInbox dispatch.memo dispatch.relatedMemo) := by
  unfold Dispatch.messages dispatchMemoMentionNotifications
  dsimp only
  cases current : resolveMentionTargets extractMentions dispatch.db.toState dispatch.memo.content with
  | error e => exact .inl rfl
  | ok currentTargets =>
      cases previous : resolveMentionTargets extractMentions dispatch.db.toState
          dispatch.previousContent with
      | error e =>
          refine .inl ?_
          show ((if currentTargets.isEmpty then _ else _ : Except String _).toOption.getD []) = _
          split
          · rfl
          · rfl
      | ok previousTargets =>
          cases nobody : currentTargets.isEmpty with
          | true =>
              refine .inl ?_
              show ((if currentTargets.isEmpty then _ else _ : Except String _).toOption.getD []) = _
              rw [if_pos nobody]
              rfl
          | false =>
              refine .inr ⟨currentTargets.filter fun target =>
                !(previousTargets.any fun previous => decide (previous.id = target.id))
                  && !shouldSkipMentionInbox dispatch.db.toState
                    (resolveMentionContextFacts dispatch.db.toState dispatch.memo
                      dispatch.relatedMemo) target dispatch.memo dispatch.relatedMemo,
                ?_, fun target => ?_, ?_⟩
              · rw [resolveMentionTargets_ok current]
                exact List.filter_sublist.trans List.filter_sublist
              · rw [List.mem_filter, Bool.and_eq_true, Bool.not_eq_true', Bool.not_eq_true',
                  resolveMentionTargets_ok current, resolveMentionTargets_ok previous]
                constructor
                · rintro ⟨now, new, told⟩
                  refine ⟨now, fun before => ?_, told⟩
                  rw [List.any_eq_false] at new
                  exact new target before (decide_eq_true rfl)
                · rintro ⟨now, before, told⟩
                  refine ⟨now, ?_, told⟩
                  rw [List.any_eq_false]
                  intro other mem same
                  have row := Keyed.Table.eq_of_key (mem_mentioned.mp mem).1 (mem_mentioned.mp now).1
                    (of_decide_eq_true same)
                  exact before (row ▸ mem)
              · show ((if currentTargets.isEmpty then _ else _ : Except String _).toOption.getD [])
                  = _
                rw [if_neg (by rw [nobody]; decide)]
                rfl

theorem mem_messages {dispatch : Dispatch} {inbox : Inbox}
    (h : inbox ∈ dispatch.messages extractMentions) :
    ∃ target, Tells extractMentions dispatch target ∧
      inbox = mentionInbox dispatch.memo dispatch.relatedMemo target := by
  rcases messages_eq extractMentions dispatch with none | ⟨told, -, tells, eq⟩
  · rw [none] at h
    cases h
  · rw [eq] at h
    obtain ⟨target, mem, rfl⟩ := List.mem_map.mp h
    exact ⟨target, (tells target).mp mem, rfl⟩

/-! ### Readers -/

/-- Nobody whom the content mentions anew, and whom the audience of the memo and of the memo it
is about admits, is somebody these are withheld from, unless they have written one of them or
are an administrator. -/
def Instance.shows (service : APIV1Service)
    (extractMentions : String → Except String (List String)) (s : Instance) (memo : MemoRow)
    (relatedMemo : Option MemoRow) (previousContent : String) : Bool :=
  let context := memo :: relatedMemo.toList
  (mentioned extractMentions s.db.toState memo.content).all fun target =>
    (mentionNames extractMentions previousContent).contains target.username
      || isSuperUser (some target)
      || context.any (fun memo =>
        decide (memo.creatorID = target.id) || !readable s.db.toState memo target.id)
      || !context.any (withheld service.library s.memoCategoriesJson s.clock (some target))

/-- A message goes to a user who reads the memo and the memo it is about, has not written it
and was not mentioned before. -/
structure Receives (service : APIV1Service)
    (extractMentions : String → Except String (List String)) (dispatch : Dispatch) (inbox : Inbox)
    (target : UserRow) : Prop where
  stored : target ∈ dispatch.db.users
  receiver : inbox.receiverID = target.id
  about : inbox.memoID = dispatch.memo.id
  reads : ∀ authUserID, fetchCurrentUser dispatch.db.toState authUserID = .ok (some target) →
    ∀ memo ∈ dispatch.memo :: dispatch.relatedMemo.toList,
      checkMemoReadAccess service.library dispatch.db.toState dispatch.memoCategoriesJson
        dispatch.now authUserID (some memo) = .ok ()
  notAuthor : target.id ≠ dispatch.memo.creatorID
  new : target ∉ mentioned extractMentions dispatch.db.toState dispatch.previousContent

/-- Who is told has written neither memo, and belongs to the audience of both. -/
theorem Tells.reader {dispatch : Dispatch} {target : UserRow}
    (tells : Tells extractMentions dispatch target) {memo : MemoRow}
    (about : memo ∈ dispatch.memo :: dispatch.relatedMemo.toList) :
    memo.creatorID ≠ target.id ∧ readable dispatch.db.toState memo target.id = true := by
  obtain ⟨stored, -, normal⟩ := mem_mentioned.mp tells.now
  have told := tells.told
  unfold shouldSkipMentionInbox canUserAccessMentionContext at told
  rw [Bool.or_eq_false_iff, Bool.or_eq_false_iff, decide_eq_false_iff_not, Bool.not_eq_false',
    Bool.and_eq_true] at told
  obtain ⟨⟨notAuthor, announced⟩, allowed, related⟩ := told
  have active : dispatch.db.toState.normalUser target.id = true :=
    Keyed.Table.any_eq_true.mpr ⟨target, stored, by simp [normal]⟩
  rw [← allowed_user_eq _ memo target normal active false]
  rcases List.mem_cons.mp about with rfl | about
  · exact ⟨fun same => notAuthor same.symm, allowed⟩
  · rw [Option.mem_toList] at about
    rw [about, Option.any_some, Bool.and_eq_false_iff, decide_eq_false_iff_not,
      decide_eq_false_iff_not, not_not] at announced
    rw [resolveMentionContextFacts, about] at related
    refine ⟨fun same => ?_, related⟩
    rcases announced with other | author
    · exact other same.symm
    · exact notAuthor (same.symm.trans author.symm)

/-- What `shows` says of somebody whom a dispatch tells, for the memos as they were. -/
theorem shown_of_shows {s : Instance} {memo : MemoRow} {relatedMemo : Option MemoRow}
    {previousContent : String}
    (shows : s.shows service extractMentions memo relatedMemo previousContent = true)
    {target : UserRow}
    (now : target ∈ mentioned extractMentions s.db.toState memo.content)
    (before : target ∉ mentioned extractMentions s.db.toState previousContent)
    (reader : ∀ read ∈ memo :: relatedMemo.toList,
      read.creatorID ≠ target.id ∧ readable s.db.toState read target.id = true) :
    isSuperUser (some target) = true ∨ ∀ read ∈ memo :: relatedMemo.toList,
      withheld service.library s.memoCategoriesJson s.clock (some target) read = false := by
  have all := List.all_eq_true.mp shows target now
  rw [Bool.or_eq_true, Bool.or_eq_true, Bool.or_eq_true, Bool.not_eq_true', List.any_eq_false] at all
  rcases all with ((named | administrator) | closed) | shown
  · obtain ⟨stored, -, normal⟩ := mem_mentioned.mp now
    exact absurd (mem_mentioned.mpr ⟨stored, List.contains_iff_mem.mp named, normal⟩) before
  · exact .inl administrator
  · obtain ⟨read, about, closed⟩ := List.any_eq_true.mp closed
    obtain ⟨other, admitted⟩ := reader read about
    rw [decide_eq_false other, admitted] at closed
    cases closed
  · exact .inr fun read about => Bool.eq_false_iff.mpr (shown read about)

/-- Nothing is withheld from the user. -/
def Dispatch.Shown (service : APIV1Service) (dispatch : Dispatch) (target : UserRow) : Prop :=
  isSuperUser (some target) = true ∨ ∀ memo ∈ dispatch.memo :: dispatch.relatedMemo.toList,
    withheld service.library dispatch.memoCategoriesJson dispatch.now (some target) memo = false

theorem receives_of_shown {dispatch : Dispatch} {inbox : Inbox}
    (h : inbox ∈ dispatch.messages extractMentions)
    (shown : ∀ target, Tells extractMentions dispatch target → dispatch.Shown service target) :
    ∃ target, Receives service extractMentions dispatch inbox target := by
  obtain ⟨target, tells, rfl⟩ := mem_messages h
  refine ⟨target, (mem_mentioned.mp tells.now).1, rfl, rfl, fun authUserID fetched memo about => ?_,
    fun same => (tells.reader List.mem_cons_self).1 same.symm, tells.before⟩
  cases ordinary : isSuperUser (some target) with
  | true => exact checkMemoReadAccess_administrator fetched ordinary
  | false =>
      have shown := (shown target tells).resolve_left (by rw [ordinary]; decide)
      exact (checkMemoReadAccess_some _ _ _ fetched ordinary).mpr
        ⟨(tells.reader about).2, shown memo about⟩

/-! ### One dispatch -/

def isFor (memoID userID : Int) (sent : Dispatch × Inbox) : Bool :=
  decide (sent.2.memoID = memoID) && decide (sent.2.receiverID = userID)

/-- The memo of the dispatch mentions the user, who was not mentioned before. -/
structure Reports (extractMentions : String → Except String (List String)) (dispatch : Dispatch)
    (memoID userID : Int) : Prop where
  about : dispatch.memo.id = memoID
  user : ∃ user, dispatch.db.users.find? userID = some user ∧
    user.username ∈ mentionNames extractMentions dispatch.memo.content ∧
    user.username ∉ mentionNames extractMentions dispatch.previousContent

variable {creates : Int → Int → Bool} {memoID userID : Int}

theorem delivered_eq (dispatch : Dispatch) :
    delivered extractMentions creates dispatch = ((dispatch.messages extractMentions).filter
      fun inbox => creates inbox.memoID inbox.receiverID).map fun inbox => (dispatch, inbox) := rfl

theorem reports_of_delivered {dispatch : Dispatch} {sent : Dispatch × Inbox}
    (h : sent ∈ delivered extractMentions creates dispatch) (about : isFor memoID userID sent = true) :
    Reports extractMentions dispatch memoID userID := by
  rw [delivered_eq] at h
  obtain ⟨inbox, mem, rfl⟩ := List.mem_map.mp h
  obtain ⟨target, tells, rfl⟩ := mem_messages (List.mem_of_mem_filter mem)
  obtain ⟨stored, named, normal⟩ := mem_mentioned.mp tells.now
  unfold isFor at about
  rw [Bool.and_eq_true, decide_eq_true_eq, decide_eq_true_eq] at about
  refine ⟨about.1, target, Keyed.Table.find?_eq_some.mpr ⟨stored, about.2⟩, named, fun before => ?_⟩
  exact tells.before (mem_mentioned.mpr ⟨stored, before, normal⟩)

theorem countP_delivered (dispatch : Dispatch) :
    (delivered extractMentions creates dispatch).countP (isFor memoID userID) ≤ 1 := by
  rw [delivered_eq, List.countP_map]
  refine (List.filter_sublist.countP_le).trans ?_
  rcases messages_eq extractMentions dispatch with none | ⟨told, rows, -, eq⟩
  · rw [none]
    exact Nat.zero_le _
  · rw [eq, List.countP_map]
    have ids : (dispatch.db.users.rows.map UserRow.id).count userID ≤ 1 :=
      List.nodup_iff_count_le_one.mp dispatch.db.users.keys_nodup userID
    refine (rows.countP_le).trans (le_trans ?_ ids)
    rw [List.count, List.countP_map]
    refine List.countP_mono_left fun user _ about => ?_
    have about := (Bool.and_eq_true _ _ ▸ about).2
    exact beq_iff_eq.mpr (of_decide_eq_true about)

theorem countP_flatMap_delivered {dispatches : List Dispatch}
    (none : ∀ dispatch ∈ dispatches, ¬ Reports extractMentions dispatch memoID userID) :
    (dispatches.flatMap (delivered extractMentions creates)).countP (isFor memoID userID) = 0 := by
  refine List.countP_eq_zero.mpr fun sent mem about => ?_
  obtain ⟨dispatch, there, mem⟩ := List.mem_flatMap.mp mem
  exact none dispatch there (reports_of_delivered mem about)

/-! ### What an event leaves behind -/

/-- The memo is not marked as a draft, or only with a time before 1970. -/
def isPublished (memo : MemoRow) : Bool :=
  !memo.payload.draft || decide (memo.payload.publishTs < 0)

def publishedIn (db : Tables) (memoID : Int) : Bool := (db.memos.find? memoID).any isPublished

def mentionsIn (extractMentions : String → Except String (List String)) (db : Tables)
    (memoID userID : Int) : Bool :=
  (db.memos.find? memoID).any fun memo => (db.users.find? userID).any fun user =>
    (mentionNames extractMentions memo.content).contains user.username

theorem mentionsIn_iff {db : Tables} : mentionsIn extractMentions db memoID userID = true ↔
    ∃ memo user, db.memos.find? memoID = some memo ∧ db.users.find? userID = some user ∧
      user.username ∈ mentionNames extractMentions memo.content := by
  unfold mentionsIn
  rw [Option.any_eq_true]
  constructor
  · rintro ⟨memo, row, h⟩
    obtain ⟨user, there, named⟩ := (Option.any_eq_true _ _).mp h
    exact ⟨memo, user, row, there, List.contains_iff_mem.mp named⟩
  · rintro ⟨memo, user, row, there, named⟩
    refine ⟨memo, row, ?_⟩
    rw [there]
    exact List.contains_iff_mem.mpr named

def Ending.about : Ending → Int
  | .created memo _ => memo.id
  | .updated previous _ _ => previous.id

/-- There is nothing to tell the user: the memo is published, or the request under way has
found it published, with the mention. -/
inductive Settled (extractMentions : String → Except String (List String)) (memoID userID : Int)
    (s : Instance) : Prop where
  | published (away : ∀ ending, s.ending = some ending → ending.about ≠ memoID)
      (published : publishedIn s.db memoID = true)
  | updating {previous : MemoRow} {contentUpdated : Bool} {user : UserRow}
      (ending : s.ending = some (.updated previous false contentUpdated))
      (about : previous.id = memoID) (published : isPublished previous = true)
      (listed : s.db.users.find? userID = some user)
      (named : user.username ∈ mentionNames extractMentions previous.content)

/-- What is known of the dispatches between two instances, about one memo and one user. -/
structure Announces (extractMentions : String → Except String (List String))
    (memoID userID : Int) (s t : Instance) (dispatches : List Dispatch) : Prop where
  once : ∀ creates, (dispatches.flatMap (delivered extractMentions creates)).countP
    (isFor memoID userID) ≤ 1
  leaves : ∀ dispatch ∈ dispatches, Reports extractMentions dispatch memoID userID →
    Settled extractMentions memoID userID t
  silent : mentionsIn extractMentions s.db memoID userID = true →
    Settled extractMentions memoID userID s →
    (∀ dispatch ∈ dispatches, ¬ Reports extractMentions dispatch memoID userID) ∧
      Settled extractMentions memoID userID t

theorem Announces.nil {s t : Instance}
    (settled : mentionsIn extractMentions s.db memoID userID = true →
      Settled extractMentions memoID userID s → Settled extractMentions memoID userID t) :
    Announces extractMentions memoID userID s t [] where
  once _ := Nat.zero_le _
  leaves _ h := nomatch h
  silent mentions before := ⟨fun _ h => absurd h List.not_mem_nil, settled mentions before⟩

theorem Settled.idle {s : Instance} (settled : Settled extractMentions memoID userID s)
    (idle : s.ending = none) : publishedIn s.db memoID = true := by
  cases settled with
  | published away published => exact published
  | updating ending =>
      rw [idle] at ending
      cases ending

theorem Settled.of_idle {s : Instance} (idle : s.ending = none)
    (published : publishedIn s.db memoID = true) : Settled extractMentions memoID userID s := by
  refine .published (fun ending here => ?_) published
  rw [idle] at here
  cases here

/-- Only the database and the request under way matter. -/
theorem Settled.congr {s t : Instance} (settled : Settled extractMentions memoID userID s)
    (db : t.db = s.db) (ending : t.ending = s.ending) :
    Settled extractMentions memoID userID t := by
  cases settled with
  | published away published => exact .published (ending ▸ away) (db ▸ published)
  | updating here about published listed named =>
      exact .updating (ending.trans here) about published (db ▸ listed) named

/-- A database with the payload of the memo. -/
def Keeps (id : Int) (db db' : Tables) : Prop :=
  ∀ row, db.memos.find? id = some row →
    ∃ row', db'.memos.find? id = some row' ∧ row'.payload = row.payload

theorem Keeps.refl (id : Int) (db : Tables) : Keeps id db db := fun row found => ⟨row, found, rfl⟩

theorem Keeps.trans {id : Int} {db₁ db₂ db₃ : Tables} (first : Keeps id db₁ db₂)
    (second : Keeps id db₂ db₃) : Keeps id db₁ db₃ := by
  intro row found
  obtain ⟨row₂, found₂, payload₂⟩ := first row found
  obtain ⟨row₃, found₃, payload₃⟩ := second row₂ found₂
  exact ⟨row₃, found₃, payload₃.trans payload₂⟩

theorem Keeps.published {db db' : Tables} (keeps : Keeps memoID db db')
    (published : publishedIn db memoID = true) : publishedIn db' memoID = true := by
  obtain ⟨row, found, shown⟩ := (Option.any_eq_true _ _).mp published
  obtain ⟨row', found', payload⟩ := keeps row found
  unfold publishedIn isPublished at *
  rw [found', Option.any_some, payload]
  exact shown

/-! ### Creating and updating -/

section Actions

variable {s : Instance} {db : Tables} {ending : Option Ending} {dispatch : Dispatch}

/-- Creating a memo leaves the others alone. -/
theorem Announces.created {created : Option MemoRow} (idle : s.ending = none)
    (creates : Created s.db db created)
    (relatedMemo : Option MemoRow) :
    Announces extractMentions memoID userID s
      { s with db, ending := created.map fun memo => .created memo relatedMemo } [] := by
  refine .nil fun _ settled => ?_
  obtain ⟨row, found, published⟩ := (Option.any_eq_true _ _).mp (settled.idle idle)
  obtain ⟨stored, id⟩ := Keyed.Table.find?_eq_some.mp found
  refine .published (fun memo here => ?_) ?_
  · obtain ⟨new, made, rfl⟩ := Option.map_eq_some_iff.mp here
    exact fun same => creates.fresh new made row stored (id.trans same.symm)
  · unfold publishedIn
    rw [Keyed.Table.find?_eq_some.mpr ⟨creates.kept row stored, id⟩]
    exact published

theorem memoIsUnpublished_of_isPublished {memo : MemoRow} {now : Nat}
    (published : isPublished memo = true) : memoIsUnpublished memo now = false := by
  unfold isPublished at published
  unfold memoIsUnpublished
  rw [Bool.or_eq_true, Bool.not_eq_true', decide_eq_true_eq] at published
  rcases published with shown | early
  · rw [shown]
    rfl
  · have unscheduled : ¬ memo.payload.publishTs = 0 := by omega
    have past : ¬ (now : Int) < memo.payload.publishTs := by omega
    simp [unscheduled, past]

/-- A request reads its memo, and leaves the others alone. -/
theorem updateMemo_reads {authUserID : Int} {revisionForce : Bool} {request : UpdateMemoRequest}
    {later : Nat} (h : s.updateMemo service authUserID revisionForce request later
      = .ok (db, ending)) :
    ∃ previous ∈ s.db.memos, ending = some (.updated previous (memoIsUnpublished previous s.clock)
      (request.updateMask.contains .content)) ∧ db.users = s.db.users ∧
      ∀ id, id ≠ previous.id → Keeps id s.db db := by
  obtain ⟨writer, begun, h⟩ := bind_accepted.mp h
  obtain ⟨written, write, h⟩ := bind_accepted.mp h
  rw [pure_accepted] at h
  injection h with tables is
  rw [tables] at write
  obtain ⟨input, memoUID, memo, user, update, -, -, found, placed, -, rfl⟩ := beginUpdate_read begun
  obtain ⟨same, -, rows⟩ := writePayload_row write
  refine ⟨memo, (mem_of_getMemo found).1, is.symm, same.users, fun id other row stored => ?_⟩
  obtain ⟨editor, row'⟩ := rows id row stored
  have elsewhere : ¬ id = ((service.masked s.clock user input request.updateMask update
      memo).settle (s.clock + later)).update.id := by
    rw [settled_place.1, (placed_of_placeUpdate placed).id]
    exact other
  have kept : afterUpdate id row (service.nextUpdate s.db (.updating authUserID user memo input
      request.updateMask ((service.masked s.clock user input request.updateMask update
        memo).settle (s.clock + later)))) = row := if_neg elsewhere
  rw [kept] at row'
  exact ⟨_, row', rfl⟩

theorem Announces.updated {authUserID : Int} {revisionForce : Bool} {request : UpdateMemoRequest}
    {later : Nat} (idle : s.ending = none)
    (h : s.updateMemo service authUserID revisionForce request later = .ok (db, ending)) :
    Announces extractMentions memoID userID s
      { s with db, clock := s.clock + later, ending } [] := by
  obtain ⟨previous, stored, rfl, users, keeps⟩ := updateMemo_reads h
  refine .nil fun mentions settled => ?_
  have before := settled.idle idle
  by_cases same : previous.id = memoID
  · obtain ⟨memo, user, found, listed, named⟩ := mentionsIn_iff.mp mentions
    obtain ⟨stored', id⟩ := Keyed.Table.find?_eq_some.mp found
    obtain rfl : previous = memo := Keyed.Table.eq_of_key stored stored' (same.trans id.symm)
    unfold publishedIn at before
    rw [found, Option.any_some] at before
    have shown : memoIsUnpublished previous s.clock = false :=
      memoIsUnpublished_of_isPublished before
    exact .updating (by rw [shown]) same before (users ▸ listed) named
  · refine .published (fun memo here => ?_) ((keeps memoID fun is => same is.symm).published before)
    injection here with here
    rw [← here]
    exact same

/-! ### The end of a request -/

/-- The memo is not marked as a draft if the request has found it published, or announces it. -/
def Ending.leavesPublished (memoID : Int) (s : Instance) : Ending → Bool
  | .created memo relatedMemo =>
      decide (memo.id ≠ memoID) || publishedIn s.db memoID
        || relatedMemo.isNone && memoIsUnpublished memo s.clock
  | .updated previous wasUnpublished contentUpdated =>
      decide (previous.id ≠ memoID) || publishedIn s.db memoID
        || !isPublished previous && (!(wasUnpublished || contentUpdated)
          || (s.db.memos.find? memoID).all fun memo => memoIsUnpublished memo s.clock)

/-- What the end of a request announces, and when. -/
theorem announcement_cases {ending : Ending} (h : s.announcement ending = some dispatch) :
    (∃ memo relatedMemo, ending = .created memo relatedMemo ∧
      (relatedMemo.isNone && memoIsUnpublished memo s.clock) = false ∧
      dispatch = s.dispatch s.db memo relatedMemo "") ∨
    ∃ previous wasUnpublished contentUpdated row,
      ending = .updated previous wasUnpublished contentUpdated ∧
      getMemoByID s.db.toState previous.id = some row ∧ memoIsUnpublished row s.clock = false ∧
      (wasUnpublished || contentUpdated) = true ∧
      dispatch = s.dispatch s.db row ((parentUID s.db row).bind (getMemo s.db.toState))
        (if wasUnpublished then "" else previous.content) := by
  cases ending with
  | created memo relatedMemo =>
      unfold Instance.announcement at h
      dsimp only at h
      split at h
      · cases h
      · rename_i announced
        injection h with h
        exact .inl ⟨memo, relatedMemo, rfl, Bool.eq_false_iff.mpr announced, h.symm⟩
  | updated previous wasUnpublished contentUpdated =>
      obtain ⟨row, found, h⟩ := Option.bind_eq_some_iff.mp h
      dsimp only at h
      split at h
      · cases h
      · rename_i published
        refine .inr ⟨previous, wasUnpublished, contentUpdated, row, rfl, found,
          Bool.eq_false_iff.mpr published, ?_⟩
        split at h
        · rename_i was
          injection h with h
          rw [was, if_pos rfl]
          exact ⟨rfl, h.symm⟩
        · rename_i found
          split at h
          · rename_i edited
            injection h with h
            rw [edited, Bool.or_true, if_neg found]
            exact ⟨rfl, h.symm⟩
          · cases h

theorem announcement_spec {ending : Ending} (leaves : ending.leavesPublished memoID s = true)
    (h : s.announcement ending = some dispatch) :
    dispatch.db = s.db ∧ dispatch.memo.id = ending.about ∧
      (ending.about = memoID → publishedIn s.db memoID = true) ∧
      ∀ previous contentUpdated, ending = .updated previous false contentUpdated →
        dispatch.previousContent = previous.content := by
  unfold Ending.leavesPublished at leaves
  rcases announcement_cases h with ⟨memo, relatedMemo, rfl, shown, rfl⟩ |
    ⟨previous, was, edited, row, rfl, found, shown, announced, rfl⟩
  · refine ⟨rfl, rfl, fun about => ?_, fun _ _ is => nomatch is⟩
    have about : memo.id = memoID := about
    dsimp only at leaves
    rw [shown, decide_eq_false (not_not.mpr about), Bool.false_or, Bool.or_false] at leaves
    exact leaves
  · unfold getMemoByID at found
    rw [Option.filter_eq_some_iff] at found
    have found := found.1
    refine ⟨rfl, (Keyed.Table.find?_eq_some.mp found).2, fun about => ?_, fun _ _ is => ?_⟩
    · have about : previous.id = memoID := about
      rw [about] at found
      have found : s.db.memos.find? memoID = some row := found
      dsimp only at leaves
      rw [announced, decide_eq_false (not_not.mpr about), found, Option.all_some, shown,
        Bool.not_true, Bool.or_self, Bool.and_false, Bool.or_false, Bool.false_or] at leaves
      exact leaves
    · injection is with same was
      rw [was, if_neg (by decide)]
      exact congrArg MemoRow.content same

theorem Announces.finished {ending : Ending} (here : s.ending = some ending)
    (leaves : ending.leavesPublished memoID s = true) :
    Announces extractMentions memoID userID s { s with ending := none }
      (s.announcement ending).toList where
  once creates := by
    cases s.announcement ending with
    | none => exact Nat.zero_le _
    | some dispatch =>
        rw [Option.toList_some, List.flatMap_singleton]
        exact countP_delivered dispatch
  leaves dispatch mem reports := by
    obtain ⟨-, id, published, -⟩ :=
      announcement_spec leaves (Option.mem_toList.mp mem)
    exact .of_idle rfl (published (id.symm.trans reports.about))
  silent _ settled := by
    cases settled with
    | published away published =>
        refine ⟨fun dispatch mem reports => ?_, .of_idle rfl published⟩
        obtain ⟨-, id, -⟩ := announcement_spec leaves (Option.mem_toList.mp mem)
        exact away ending here (id.symm.trans reports.about)
    | @updating previous contentUpdated user here' about published listed named =>
        obtain rfl := Option.some.inj (here.symm.trans here')
        refine ⟨fun dispatch mem reports => ?_, .of_idle rfl ?_⟩
        · obtain ⟨tables, -, -, before⟩ :=
            announcement_spec leaves (Option.mem_toList.mp mem)
          obtain ⟨-, user', listed', -, new⟩ := reports
          rw [tables, listed] at listed'
          injection listed' with same
          rw [before previous contentUpdated rfl, ← same] at new
          exact new named
        · unfold Ending.leavesPublished at leaves
          dsimp only at leaves
          rw [published, decide_eq_false (not_not.mpr about), Bool.not_true, Bool.false_and,
            Bool.or_false, Bool.false_or] at leaves
          exact leaves

end Actions

/-! ### Publishing -/

section Publishing

variable {s : Instance} {nowSec : Int} {memo : MemoRow} {db : Tables} {dispatch : Dispatch}

/-- What the publisher dispatches for a memo, when the database is as it has left it. -/
structure Posts (service : APIV1Service) (s : Instance) (nowSec : Int) (memo : MemoRow)
    (db : Tables) (dispatch : Dispatch) : Prop where
  due : isDue nowSec memo = true
  passes : service.passesReview db memo = true
  is : ∃ state, SameTables state db.toState ∧
    state.allowsAnonymousAccess = db.toState.allowsAnonymousAccess ∧
    dispatch = s.dispatch { db with toState := state }
      { memo with payload := { memo.payload with draft := false } } none ""

/-- A round of the publisher writes the payload of its memo and dispatches for it, or not. -/
theorem publishMemo_spec (service : APIV1Service) (s : Instance) (nowSec : Int) (db : Tables)
    (dispatches : List Dispatch) (memo : MemoRow) :
    ∃ state extra, s.publishMemo service nowSec (db, dispatches) memo
        = ({ db with toState := state }, dispatches ++ extra) ∧
      SameTables state db.toState ∧
      state.allowsAnonymousAccess = db.toState.allowsAnonymousAccess ∧
      (∀ id, id ≠ memo.id → Keeps id db { db with toState := state }) ∧
      (extra = [] ∨ ∃ dispatch, extra = [dispatch] ∧ Posts service s nowSec memo db dispatch ∧
        ∀ row, db.memos.find? memo.id = some row →
          ∃ row', state.memos.find? memo.id = some row' ∧ row'.payload.draft = false) := by
  have idle : ∃ state extra, (db, dispatches) = ({ db with toState := state }, dispatches ++ extra) ∧
      SameTables state db.toState ∧
      state.allowsAnonymousAccess = db.toState.allowsAnonymousAccess ∧
      (∀ id, id ≠ memo.id → Keeps id db { db with toState := state }) ∧ extra = [] :=
    ⟨db.toState, [], by rw [List.append_nil], ⟨rfl, rfl, rfl, rfl⟩, rfl, fun id _ => .refl id db, rfl⟩
  unfold Instance.publishMemo
  dsimp only
  split
  · rename_i due
    cases write : Store.updateMemo service.validUID db.toState s.clock
        (payloadUpdate memo (service.published db memo)) with
    | error e =>
        obtain ⟨state, extra, eq, tables, anonymous, keeps, none⟩ := idle
        exact ⟨state, extra, eq, tables, anonymous, keeps, .inl none⟩
    | ok state =>
        dsimp only
        obtain ⟨tables, anonymous, rows⟩ := applyMemoUpdate_row (applyMemoUpdate_of_updateMemo write)
        have keeps : ∀ id, id ≠ memo.id → Keeps id db { db with toState := state } := by
          intro id other row found
          obtain ⟨editor, found'⟩ := rows id row found
          rw [if_neg (show id ≠ (payloadUpdate memo (service.published db memo)).id from other)]
            at found'
          exact ⟨_, found', rfl⟩
        cases passes : service.passesReview db memo with
        | false =>
            rw [if_neg (by decide)]
            exact ⟨state, [], by rw [List.append_nil], tables, anonymous, keeps, .inl rfl⟩
        | true =>
            have payload : service.published db memo = { memo.payload with draft := false } :=
              if_pos passes
            rw [if_pos rfl, payload]
            refine ⟨state, _, rfl, tables, anonymous, keeps, .inr ⟨_, rfl,
              ⟨due, passes, state, tables, anonymous, rfl⟩, fun row found => ?_⟩⟩
            obtain ⟨editor, found'⟩ := rows memo.id row found
            rw [payload, if_pos (show memo.id
              = (payloadUpdate memo { memo.payload with draft := false }).id from rfl)] at found'
            exact ⟨_, found', rfl⟩
  · obtain ⟨state, extra, eq, tables, anonymous, keeps, none⟩ := idle
    exact ⟨state, extra, eq, tables, anonymous, keeps, .inl none⟩

/-- A pass dispatches for memos of its scan only. -/
theorem publish_posts (service : APIV1Service) (s : Instance) (nowSec : Int) (memos : List MemoRow)
    (db : Tables) (dispatches : List Dispatch) :
    ∃ state extra, memos.foldl (s.publishMemo service nowSec) (db, dispatches)
        = ({ db with toState := state }, dispatches ++ extra) ∧
      (∀ id, (∀ memo ∈ memos, memo.id ≠ id) → Keeps id db { db with toState := state }) ∧
      ∀ dispatch ∈ extra, ∃ memo ∈ memos, Posts service s nowSec memo db dispatch := by
  induction memos generalizing db dispatches with
  | nil =>
      refine ⟨db.toState, [], ?_, fun id _ => .refl id db, fun _ mem => absurd mem List.not_mem_nil⟩
      rw [List.append_nil, List.foldl_nil]
  | cons first rest ih =>
      obtain ⟨between, extra, eq, tables, anonymous, keeps, reported⟩ :=
        publishMemo_spec service s nowSec db dispatches first
      obtain ⟨state, extra', eq', keeps', posts⟩ :=
        ih { db with toState := between } (dispatches ++ extra)
      refine ⟨state, extra ++ extra', ?_, fun id others => ?_, fun dispatch mem => ?_⟩
      · rw [List.foldl_cons, eq, eq', List.append_assoc]
      · exact (keeps id fun same => others first (.head _) same.symm).trans
          (keeps' id fun memo mem => others memo (.tail _ mem))
      · rcases List.mem_append.mp mem with mem | mem
        · rcases reported with rfl | ⟨only, rfl, post, -⟩
          · cases mem
          · exact ⟨first, .head _, List.mem_singleton.mp mem ▸ post⟩
        · obtain ⟨memo, scanned, due, passes, last, same, anonymous', is⟩ := posts dispatch mem
          refine ⟨memo, .tail _ scanned, due, passes, last, ?_, anonymous'.trans anonymous, is⟩
          exact ⟨same.users.trans tables.users, same.spaces.trans tables.spaces,
            same.members.trans tables.members, same.shares.trans tables.shares⟩

theorem Posts.about (posts : Posts service s nowSec memo db dispatch) : dispatch.memo.id = memo.id := by
  obtain ⟨state, -, -, rfl⟩ := posts.is
  rfl

theorem mem_scheduledMemos {db : Tables} (h : memo ∈ scheduledMemos db nowSec) :
    memo ∈ db.memos ∧ memo.payload.draft = true ∧ 0 < memo.payload.publishTs := by
  unfold scheduledMemos at h
  rw [List.mem_insertionSort, Keyed.Table.mem_select] at h
  simp only [Bool.and_eq_true, decide_eq_true_eq] at h
  exact ⟨h.1, h.2.1.1.2, h.2.1.2⟩

theorem scheduledMemos_distinct (nowSec : Int) (db : Tables) :
    ((scheduledMemos db nowSec).map MemoRow.id).Nodup := by
  unfold scheduledMemos
  refine ((List.perm_insertionSort _ _).map MemoRow.id).nodup_iff.mpr ?_
  exact db.memos.keys_nodup.sublist (List.filter_sublist.map MemoRow.id)

/-- A pass of the publisher announces each memo of its scan at most once. -/
theorem Announces.scheduled (service : APIV1Service) (idle : s.ending = none) :
    Announces extractMentions memoID userID s
      { s with db := ((scheduledMemos s.db s.clock).foldl (s.publishMemo service s.clock)
        (s.db, [])).1 }
      ((scheduledMemos s.db s.clock).foldl (s.publishMemo service s.clock) (s.db, [])).2 := by
  have others : ∀ {memos : List MemoRow} {db : Tables} {extra : List Dispatch},
      (∀ memo ∈ memos, memo.id ≠ memoID) →
      (∀ dispatch ∈ extra, ∃ memo ∈ memos, Posts service s s.clock memo db dispatch) →
      ∀ dispatch ∈ extra, ¬ Reports extractMentions dispatch memoID userID := by
    intro memos db extra apart posts dispatch mem reports
    obtain ⟨memo, scanned, post⟩ := posts dispatch mem
    exact apart memo scanned (post.about.symm.trans reports.about)
  by_cases scanned : ∃ memo ∈ scheduledMemos s.db s.clock, memo.id = memoID
  · obtain ⟨memo, scanned, rfl⟩ := scanned
    obtain ⟨stored, draft, scheduled⟩ := mem_scheduledMemos scanned
    have found : s.db.memos.find? memo.id = some memo :=
      Keyed.Table.find?_eq_some.mpr ⟨stored, rfl⟩
    have distinct := scheduledMemos_distinct s.clock s.db
    obtain ⟨before, after, split⟩ := List.append_of_mem scanned
    rw [split] at distinct ⊢
    rw [List.map_append, List.map_cons, List.nodup_append, List.nodup_cons] at distinct
    obtain ⟨-, ⟨unrepeated, -⟩, apart⟩ := distinct
    have apart₁ : ∀ other ∈ before, other.id ≠ memo.id :=
      fun other mem => apart _ (List.mem_map_of_mem mem) _ (.head _)
    have apart₃ : ∀ other ∈ after, other.id ≠ memo.id :=
      fun other mem same => unrepeated (same ▸ List.mem_map_of_mem mem)
    rw [List.foldl_append, List.foldl_cons]
    obtain ⟨state₁, extra₁, eq₁, keeps₁, posts₁⟩ :=
      publish_posts service s s.clock before s.db []
    obtain ⟨state₂, extra₂, eq₂, -, -, -, reported⟩ :=
      publishMemo_spec service s s.clock { s.db with toState := state₁ } ([] ++ extra₁) memo
    obtain ⟨state₃, extra₃, eq₃, keeps₃, posts₃⟩ := publish_posts service s s.clock after
      { s.db with toState := state₂ } ([] ++ extra₁ ++ extra₂)
    rw [eq₁, eq₂, eq₃, List.nil_append]
    have idle₁ := others apart₁ posts₁
    have idle₃ := others apart₃ posts₃
    refine ⟨fun creates => ?_, fun dispatch mem reports => ?_, fun _ settled => ?_⟩
    · rw [List.flatMap_append, List.flatMap_append, List.countP_append, List.countP_append,
        countP_flatMap_delivered idle₁, countP_flatMap_delivered idle₃, Nat.zero_add, Nat.add_zero]
      rcases reported with rfl | ⟨only, rfl, -⟩
      · exact Nat.zero_le _
      · rw [List.flatMap_singleton]
        exact countP_delivered only
    · rw [List.mem_append, List.mem_append] at mem
      rcases mem with (mem | mem) | mem
      · exact absurd reports (idle₁ dispatch mem)
      · rcases reported with rfl | ⟨only, rfl, -, row⟩
        · cases mem
        · obtain ⟨row₁, found₁, -⟩ := keeps₁ memo.id apart₁ memo found
          obtain ⟨row₂, found₂, published₂⟩ := row row₁ found₁
          obtain ⟨row₃, found₃, payload₃⟩ := keeps₃ memo.id apart₃ row₂ found₂
          refine .of_idle idle ?_
          unfold publishedIn isPublished
          rw [found₃, Option.any_some, payload₃, published₂]
          rfl
      · exact absurd reports (idle₃ dispatch mem)
    · have published := settled.idle idle
      unfold publishedIn isPublished at published
      rw [found, Option.any_some, draft, decide_eq_false (by omega)] at published
      cases published
  · push Not at scanned
    obtain ⟨state, extra, eq, keeps, posts⟩ :=
      publish_posts service s s.clock (scheduledMemos s.db s.clock) s.db []
    rw [eq, List.nil_append]
    have none := others scanned posts
    refine ⟨fun creates => ?_, fun dispatch mem reports => absurd reports (none dispatch mem),
      fun _ settled => ⟨none, .of_idle idle ((keeps memoID scanned).published (settled.idle idle))⟩⟩
    rw [countP_flatMap_delivered none]
    exact Nat.zero_le _

/-- What keeps nothing of the scanned memo from its readers keeps nothing of the published one. -/
theorem Posts.shown (posts : Posts service s s.clock memo s.db dispatch)
    (shows : s.shows service extractMentions memo none "" = true) {target : UserRow}
    (tells : Tells extractMentions dispatch target) : dispatch.Shown service target := by
  obtain ⟨state, tables, anonymous, rfl⟩ := posts.is
  obtain ⟨other, admitted⟩ := tells.reader List.mem_cons_self
  have users : ∀ content, mentioned extractMentions state content
      = mentioned extractMentions s.db.toState content := by
    intro content
    unfold mentioned
    rw [tables.users]
  have reader : memo.creatorID ≠ target.id ∧ readable s.db.toState memo target.id = true :=
    ⟨other, (inAudience_congr tables anonymous (some target)).symm.trans admitted⟩
  refine (shown_of_shows shows (users _ ▸ tells.now) (users _ ▸ tells.before) ?_).imp_right ?_
  · intro read about
    rw [List.mem_singleton.mp about]
    exact reader
  · intro shown read about
    have shown := shown memo List.mem_cons_self
    rw [List.mem_singleton.mp about]
    unfold withheld at shown ⊢
    rw [Bool.or_eq_false_iff, Bool.or_eq_false_iff] at shown ⊢
    exact ⟨⟨shown.1.1, rfl⟩, shown.2⟩

end Publishing

/-! ### Events -/

def Instance.notified (s : Instance) (memoID userID : Int) : Nat :=
  s.sent.countP (isFor memoID userID)

/-- What a request announces is shown to those it mentions. -/
def Ending.shows (service : APIV1Service)
    (extractMentions : String → Except String (List String)) (s : Instance) : Ending → Bool
  | .created memo relatedMemo =>
      relatedMemo.isNone && memoIsUnpublished memo s.clock
        || s.shows service extractMentions memo relatedMemo ""
  | .updated previous wasUnpublished contentUpdated =>
      (getMemoByID s.db.toState previous.id).all fun memo =>
        memoIsUnpublished memo s.clock || !(wasUnpublished || contentUpdated)
          || s.shows service extractMentions memo
            ((parentUID s.db memo).bind (getMemo s.db.toState))
            (if wasUnpublished then "" else previous.content)

/-- Whatever memo the request that ends or the publisher announces, it is shown to those its
content mentions anew. -/
def clears (service : APIV1Service) (extractMentions : String → Except String (List String))
    (s : Instance) (event : Event) : Bool :=
  match event.action with
  | .finish => s.ending.all (Ending.shows service extractMentions s)
  | .publishScheduledMemos =>
      (scheduledMemos s.db s.clock).all fun memo =>
        !isDue s.clock memo || !(s.configured service).passesReview s.db memo
          || s.shows service extractMentions memo none ""
  | _ => true

def staysMentioned (service : APIV1Service)
    (extractMentions : String → Except String (List String)) (memoID userID : Int) (s : Instance)
    (event : Event) : Bool :=
  (step service extractMentions s event).all fun t =>
    mentionsIn extractMentions t.db memoID userID

/-- No request that has found the memo published, or announces it, ends with the mark of a draft
on it, and nothing else puts one on it. -/
def staysPublished (memoID : Int) (s : Instance) (event : Event) : Bool :=
  match event.action with
  | .finish => s.ending.all (Ending.leavesPublished memoID s)
  | .elsewhere db _ => !publishedIn s.db memoID || publishedIn db memoID
  | _ => true

section Events

variable {s t : Instance} {event : Event}

theorem step_eq (h : step service extractMentions s event = some t) :
    s.admits event.action = true ∧ t = { (s.perform service event.action).1 with
      sent := s.sent ++ (s.perform service event.action).2.flatMap
        (delivered extractMentions event.creates) } := by
  unfold step at h
  split at h
  · rename_i admitted
    injection h with h
    exact ⟨admitted, h.symm⟩
  · cases h

/-- Only the end of a request and the publisher dispatch. -/
theorem mem_perform {action : Action} {dispatch : Dispatch}
    (h : dispatch ∈ (s.perform service action).2) :
    (action = .finish ∧ ∃ ending, s.ending = some ending ∧ s.announcement ending = some dispatch) ∨
      (action = .publishScheduledMemos ∧ ∃ memo ∈ scheduledMemos s.db s.clock,
        Posts (s.configured service) s s.clock memo s.db dispatch) := by
  unfold Instance.perform at h
  cases action with
  | finish => exact .inl ⟨rfl, Option.bind_eq_some_iff.mp (Option.mem_toList.mp h)⟩
  | publishScheduledMemos =>
      obtain ⟨state, extra, eq, -, posts⟩ := publish_posts (s.configured service) s s.clock
        (scheduledMemos s.db s.clock) s.db []
      dsimp only at h
      rw [eq, List.nil_append] at h
      exact .inr ⟨rfl, posts dispatch h⟩
  | createMemo authUserID cooldown newUID request | createMemoComment authUserID newUID request =>
      dsimp only at h
      split at h
      · cases h
      · cases h
  | updateMemo authUserID revisionForce request later =>
      dsimp only at h
      split at h
      · cases h
      · cases h
  | tick seconds => cases h
  | elsewhere db memoCategoriesJson => cases h

/-- The end of a request tells nobody the memo is withheld from. -/
theorem Ending.shown {ending : Ending} {dispatch : Dispatch}
    (shows : ending.shows service extractMentions s = true)
    (h : s.announcement ending = some dispatch) {target : UserRow}
    (tells : Tells extractMentions dispatch target) : dispatch.Shown service target := by
  unfold Ending.shows at shows
  rcases announcement_cases h with ⟨memo, relatedMemo, rfl, announced, rfl⟩ |
    ⟨previous, was, edited, row, rfl, found, published, announced, rfl⟩
  · dsimp only at shows
    rw [announced, Bool.false_or] at shows
    exact shown_of_shows shows tells.now tells.before fun _ about => tells.reader about
  · dsimp only at shows
    rw [found, Option.all_some, published, announced, Bool.not_true, Bool.or_self, Bool.false_or]
      at shows
    exact shown_of_shows shows tells.now tells.before fun _ about => tells.reader about

theorem step_receives (clear : clears service extractMentions s event = true)
    (h : step service extractMentions s event = some t)
    (received : ∀ sent ∈ s.sent, ∃ target, Receives service extractMentions sent.1 sent.2 target) :
    ∀ sent ∈ t.sent, ∃ target, Receives service extractMentions sent.1 sent.2 target := by
  obtain ⟨-, rfl⟩ := step_eq h
  intro sent mem
  rcases List.mem_append.mp mem with mem | mem
  · exact received sent mem
  obtain ⟨dispatch, made, mem⟩ := List.mem_flatMap.mp mem
  rw [delivered_eq] at mem
  obtain ⟨inbox, kept, rfl⟩ := List.mem_map.mp mem
  refine receives_of_shown (List.mem_of_mem_filter kept) fun target tells => ?_
  unfold clears at clear
  rcases mem_perform made with ⟨acts, ending, here, announced⟩ | ⟨acts, memo, scanned, post⟩
  · rw [acts] at clear
    dsimp only at clear
    rw [here, Option.all_some] at clear
    exact Ending.shown clear announced tells
  · rw [acts] at clear
    have shows := List.all_eq_true.mp clear memo scanned
    rw [post.due, post.passes, Bool.not_true, Bool.or_self, Bool.false_or] at shows
    exact post.shown shows tells

theorem perform_announces (admitted : s.admits event.action = true)
    (stays : staysPublished memoID s event = true) :
    Announces extractMentions memoID userID s (s.perform service event.action).1
      (s.perform service event.action).2 := by
  unfold staysPublished at stays
  have idle : s.ending.isNone = true → s.ending = none := Option.isNone_iff_eq_none.mp
  cases acts : event.action with
  | createMemo authUserID cooldown newUID request =>
      rw [acts] at admitted
      unfold Instance.perform
      dsimp only
      split
      · rename_i db created h
        exact .created (idle admitted) (createMemo_creates h) none
      · exact .nil fun _ settled => settled
  | createMemoComment authUserID newUID request =>
      rw [acts] at admitted
      unfold Instance.perform
      dsimp only
      split
      · rename_i db created relatedMemo h
        exact .created (idle admitted) (createMemoComment_creates h) (some relatedMemo)
      · exact .nil fun _ settled => settled
  | updateMemo authUserID revisionForce request later =>
      rw [acts] at admitted
      unfold Instance.perform
      dsimp only
      split
      · rename_i db ending h
        exact .updated (idle admitted) h
      · exact .nil fun _ settled => settled.congr rfl rfl
  | finish =>
      rw [acts] at admitted stays
      obtain ⟨ending, here⟩ := Option.isSome_iff_exists.mp admitted
      dsimp only at stays
      rw [here, Option.all_some] at stays
      have finished : Announces extractMentions memoID userID s { s with ending := none }
        (s.announcement ending).toList := .finished here stays
      unfold Instance.perform
      dsimp only
      rw [here, Option.bind_some]
      exact finished
  | publishScheduledMemos =>
      rw [acts] at admitted
      exact .scheduled (s.configured service) (idle admitted)
  | tick seconds => exact .nil fun _ settled => settled.congr rfl rfl
  | elsewhere db memoCategoriesJson =>
      rw [acts] at admitted stays
      refine .nil fun _ settled => .of_idle (idle admitted) ?_
      dsimp only at stays
      rw [settled.idle (idle admitted), Bool.not_true, Bool.false_or] at stays
      exact stays

/-- The user is told once, and from then on there is nothing more to tell them. -/
structure Told (extractMentions : String → Except String (List String)) (memoID userID : Int)
    (s t : Instance) : Prop where
  once : t.notified memoID userID ≤ s.notified memoID userID + 1
  settled : t.notified memoID userID = s.notified memoID userID ∨
    (Settled extractMentions memoID userID t ∧
      mentionsIn extractMentions t.db memoID userID = true)
  silent : Settled extractMentions memoID userID s →
    mentionsIn extractMentions s.db memoID userID = true →
      t.notified memoID userID = s.notified memoID userID ∧
        Settled extractMentions memoID userID t ∧
        mentionsIn extractMentions t.db memoID userID = true

theorem Told.refl (s : Instance) : Told extractMentions memoID userID s s :=
  ⟨Nat.le_succ _, .inl rfl, fun settled mentions => ⟨rfl, settled, mentions⟩⟩

theorem Told.tail {start : Instance} (told : Told extractMentions memoID userID start s)
    (mentioned : staysMentioned service extractMentions memoID userID s event = true)
    (published : staysPublished memoID s event = true)
    (h : step service extractMentions s event = some t) :
    Told extractMentions memoID userID start t := by
  have mentions : mentionsIn extractMentions t.db memoID userID = true := by
    unfold staysMentioned at mentioned
    rw [h] at mentioned
    exact mentioned
  obtain ⟨admitted, is⟩ := step_eq h
  have announces : Announces extractMentions memoID userID s (s.perform service event.action).1
    (s.perform service event.action).2 := perform_announces admitted published
  have settles : Settled extractMentions memoID userID (s.perform service event.action).1 →
      Settled extractMentions memoID userID t := by
    rw [is]
    exact fun settled => settled.congr rfl rfl
  have counted : t.notified memoID userID = s.notified memoID userID
      + ((s.perform service event.action).2.flatMap
        (delivered extractMentions event.creates)).countP (isFor memoID userID) := by
    rw [is]
    exact List.countP_append
  -- once there is nothing more to tell, the event adds nothing
  have quiet : Settled extractMentions memoID userID s →
      mentionsIn extractMentions s.db memoID userID = true →
        t.notified memoID userID = s.notified memoID userID ∧
          Settled extractMentions memoID userID t := by
    intro settled named
    obtain ⟨silent, after⟩ := announces.silent named settled
    rw [counted, countP_flatMap_delivered silent]
    exact ⟨Nat.add_zero _, settles after⟩
  refine ⟨?_, ?_, fun settled named => ?_⟩
  · rcases told.settled with same | ⟨settled, named⟩
    · rw [counted, same]
      exact Nat.add_le_add_left (announces.once _) _
    · rw [(quiet settled named).1]
      exact told.once
  · rcases told.settled with same | ⟨settled, named⟩
    · by_cases silent : ∀ dispatch ∈ (s.perform service event.action).2,
          ¬ Reports extractMentions dispatch memoID userID
      · rw [counted, countP_flatMap_delivered silent, same]
        exact .inl rfl
      · push Not at silent
        obtain ⟨dispatch, made, reports⟩ := silent
        exact .inr ⟨settles (announces.leaves dispatch made reports), mentions⟩
    · exact .inr ⟨(quiet settled named).2, mentions⟩
  · obtain ⟨same, between, named'⟩ := told.silent settled named
    exact ⟨(quiet between named').1.trans same, (quiet between named').2, mentions⟩

end Events

/-! ### Runs -/

/-- Contents that mention one user, if any. -/
def atLea (content : String) : Except String (List String) :=
  .ok (if content.toList.contains '@' then ["lea"] else [])

def menuMemo (payload : MemoPayload) : MemoRow :=
  { MemoRow.withDefaults 7 "menu" 6 .Public none with payload }

/-- A public memo, its author, and the user who may be mentioned in it. -/
def menu (payload : MemoPayload) : Instance :=
  { db := { pollTables with
      users := ⟨[.withDefaults 5 "lea", .withDefaults 6 "noa"], by decide, by decide⟩
      memos := ⟨[menuMemo payload], List.pairwise_singleton _ _,
        fun _ mem => List.mem_singleton.mp mem ▸ rfl⟩ }
    memoCategoriesJson := ""
    clock := 50
    ending := none
    sent := [] }

def always (action : Action) : Event := ⟨action, fun _ _ => true⟩

def edit (path : UpdatePath) (draft : Bool) (content : String) : List Event :=
  [always (.updateMemo 6 false ⟨some { name := "memos/menu", content, draft }, [path]⟩ 0),
    always .finish]

end Memos.Api.Mentions

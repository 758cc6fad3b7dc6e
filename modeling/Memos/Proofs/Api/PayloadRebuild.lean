/-
When the payload says what the content says.

Whoever writes the content of a memo writes the payload that was extracted from it along
with it, in one statement.  Whoever writes the payload alone writes what was extracted from
the content it has read; the store compares that content with the stored one if attachments
or relations change too, and else it does not.  So an edit of the content that comes in
between leaves the new content with the tags of the old one.
-/
import Memos.Proofs.Api.ScheduledPublish
import Memos.Proofs.Api.MemoCreate

namespace Memos.Api.Payloads

open Store Access Runs

/-! ### Which steps are meant -/

def comparesContent : Writer → Bool
  | .updating _ _ _ _ _ pending =>
      pending.contentUpdated || pending.attachmentsUpdated || pending.relationsUpdated
  | _ => false

/-- The memo has the content it had when it was read. -/
def unedited (db : Tables) (memo : MemoRow) : Bool :=
  (db.memos.find? memo.id).all fun stored => decide (stored.content = memo.content)

/-- A payload that is written without a comparison is about the content that is stored. -/
def current (service : APIV1Service) (s : Server) : Event → Bool
  | .act (.write i _) =>
      (s.system.writers[i]?).all fun writer => comparesContent writer ||
        (service.nextUpdate s.system.db writer).all fun (memo, update) =>
          update.payload.isNone || unedited s.system.db memo
  | .rebuild i _ =>
      match s.passes[i]? with
      | some (some ⟨_, memo :: _⟩) => unedited s.system.db memo
      | _ => true
  | _ => true

def Current (service : APIV1Service) (s : Server) (e : Event) : Prop := current service s e = true

instance (service : APIV1Service) (s : Server) (e : Event) : Decidable (Current service s e) :=
  inferInstanceAs (Decidable (current service s e = true))

/-! ### What is extracted -/

/-- The payload says what `ExtractAll` computes from the content. -/
def Rebuilt (service : APIV1Service) (content : String) (payload : MemoPayload) : Prop :=
  service.extractAll content = .ok (derived payload)

section Payloads

variable {service : APIV1Service} {db db' : Tables} {now : Int} {memo row : MemoRow}
  {content : String} {payload : MemoPayload}

theorem isRebuilt_iff : isRebuilt service content payload = true ↔ Rebuilt service content payload := by
  unfold isRebuilt Rebuilt
  cases service.extractAll content with
  | error e => exact ⟨fun h => absurd h Bool.false_ne_true, fun h => by cases h⟩
  | ok data =>
      dsimp only
      rw [decide_eq_true_eq]
      exact ⟨fun same => congrArg Except.ok same, fun same => Except.ok.inj same⟩

theorem derived_rebuild (data : ExtractedData) (payload : MemoPayload) :
    derived (data.rebuild payload) = data := rfl

theorem derived_settlePayload (payload : MemoPayload) :
    derived (settlePayload now payload) = derived payload := by
  unfold settlePayload
  split
  · rfl
  · rfl

theorem derived_published (memo : MemoRow) :
    derived (service.published db memo) = derived memo.payload := by
  unfold APIV1Service.published
  split
  · rfl
  · rfl

end Payloads

/-! ### Requests -/

section Requests

variable {service : APIV1Service} {db : Tables} {now authUserID : Int} {revisionForce : Bool}
  {request : UpdateMemoRequest} {paths : List UpdatePath} {input : ProtoMemo} {memo : MemoRow}
  {user : UserRow} {update : UpdateMemo} {comment : Bool}

/-- A mask with the path `content` is refused if the content cannot be parsed. -/
theorem extracted_of_accepts (pending : PendingUpdate)
    (accepts : service.Accepts now user comment input .content) :
    service.extractAll input.content = .ok (service.extracted input) := by
  obtain ⟨_, -, accepted⟩ := bind_accepted.mp (accepts pending)
  obtain ⟨_, -, accepted⟩ := bind_accepted.mp accepted
  obtain ⟨_, -, accepted⟩ := bind_accepted.mp accepted
  obtain ⟨data, extracted, -⟩ := bind_accepted.mp accepted
  have extracted := refused_accepted.mp extracted
  unfold APIV1Service.extracted
  rw [extracted]
  rfl

/-- The copy of the memo has the content that will be stored, and what is extracted from it. -/
structure Tracks (service : APIV1Service) (memo : MemoRow) (pending : PendingUpdate) : Prop where
  content : pending.nextMemo.content = pending.update.content.getD memo.content
  together : pending.update.content.isSome = true → pending.update.payload.isSome = true
  rebuilt : Rebuilt service pending.nextMemo.content pending.nextMemo.payload

theorem Tracks.effect {pending : PendingUpdate} (tracks : Tracks service memo pending)
    {path : UpdatePath} (accepts : service.Accepts now user comment input path) :
    Tracks service memo (service.effect now user input pending path) := by
  cases path with
  | visibility | space | pinned | state | createTime | updateTime | displayTime | attachments
  | relations | unrecognised => exact ⟨tracks.content, tracks.together, tracks.rebuilt⟩
  | location | category | hidden | hideTime | anonymous | adminScript | draft | poll =>
      exact ⟨tracks.content, fun _ => rfl, tracks.rebuilt⟩
  | publishTime =>
      refine ⟨tracks.content, fun _ => rfl, ?_⟩
      rw [effect_publishTime]
      unfold schedule
      split
      · exact tracks.rebuilt
      · exact tracks.rebuilt
  | content => exact ⟨rfl, fun _ => rfl, extracted_of_accepts pending accepts⟩

/-- Where the memo is placed is decided before the content is. -/
theorem content_of_placeUpdate {state : State}
    (h : service.placeUpdate state user memo input paths revisionForce = .ok update) :
    update.content = none := by
  obtain ⟨_, -, h⟩ := bind_accepted.mp h
  obtain ⟨moved, move, h⟩ := bind_accepted.mp h
  obtain ⟨shown, show', h⟩ := bind_accepted.mp h
  obtain ⟨_, -, h⟩ := bind_accepted.mp h
  obtain ⟨_, -, h⟩ := bind_accepted.mp h
  obtain ⟨_, -, h⟩ := bind_accepted.mp h
  rw [pure_accepted] at h
  have untouched : moved.content = none := by
    unfold APIV1Service.updateSpace at move
    split at move
    · split at move
      · injection move with move
        rw [← move]
        rfl
      · obtain ⟨target, -, move⟩ := bind_accepted.mp move
        rw [pure_accepted] at move
        rw [← move]
        rfl
    · injection move with move
      rw [← move]
      rfl
  rw [← h]
  show shown.content = none
  unfold updateVisibility at show'
  split at show'
  · obtain ⟨visibility, -, show'⟩ := bind_accepted.mp show'
    rw [pure_accepted] at show'
    rw [← show']
    exact untouched
  · injection show' with show'
    rw [← show']
    exact untouched

theorem masked_tracks {state : State}
    (placed : service.placeUpdate state user memo input paths revisionForce = .ok update)
    (rebuilt : Rebuilt service memo.content memo.payload)
    (accepts : ∀ path ∈ paths, service.Accepts now user comment input path) :
    Tracks service memo (service.masked now user input paths update memo) := by
  have blank := content_of_placeUpdate placed
  refine masked_invariant (fun pending path listed tracks => tracks.effect (accepts path listed)) ?_
  refine ⟨?_, ?_, rebuilt⟩
  · rw [blank]
    rfl
  · rw [blank]
    exact fun none => absurd none Bool.false_ne_true

/-- An update that writes a payload writes the one of the content it leaves. -/
structure Wellmade (service : APIV1Service) (memo : MemoRow) (update : UpdateMemo) : Prop where
  id : update.id = memo.id
  together : update.content.isSome = true → update.payload.isSome = true
  rebuilt : ∀ payload, update.payload = some payload →
    Rebuilt service (update.content.getD memo.content) payload

/-- **A request** makes its update well. -/
theorem wellmade_of_request {state : State} {settledAt : Int}
    (placed : service.placeUpdate state user memo input paths revisionForce = .ok update)
    (rebuilt : Rebuilt service memo.content memo.payload)
    (accepts : ∀ path ∈ paths, service.Accepts now user comment input path) :
    Wellmade service memo
      ((service.masked now user input paths update memo).settle settledAt).update := by
  have tracks := masked_tracks placed rebuilt accepts
  obtain ⟨content, written⟩ :=
    settle_content settledAt (service.masked now user input paths update memo)
  refine ⟨settled_place.1.trans (placed_of_placeUpdate placed).id, ?_, fun payload payload_eq => ?_⟩
  · rw [content]
    exact fun edited => written (tracks.together edited)
  · rw [content, ← tracks.content, settled_payload (placed_of_placeUpdate placed) payload_eq]
    unfold Rebuilt
    rw [derived_settlePayload]
    exact tracks.rebuilt

end Requests

/-! ### Writers -/

section Writers

variable {service : APIV1Service} {db db' : Tables} {now id : Int} {memo row : MemoRow}
  {writer : Writer} {update : UpdateMemo}

/-- What a writer has read agrees with itself. -/
def Agrees (service : APIV1Service) : Writer → Prop
  | .updating _ _ memo _ _ pending => Wellmade service memo pending.update
  | .reporting _ memo _ | .quarantining memo | .restoring memo =>
      Rebuilt service memo.content memo.payload
  | .publishing _ memos => ∀ memo ∈ memos, Rebuilt service memo.content memo.payload
  | .ended => True

theorem Agrees.next (agrees : Agrees service writer) : Agrees service writer.next := by
  cases writer with
  | publishing nowSec memos =>
      cases memos with
      | nil => trivial
      | cons memo memos => exact fun other there => agrees other (List.mem_cons_of_mem _ there)
  | _ => trivial

/-- A payload that differs from the one that was read, but not in what is extracted. -/
theorem wellmade_payloadUpdate {payload : MemoPayload}
    (rebuilt : Rebuilt service memo.content memo.payload)
    (same : derived payload = derived memo.payload) :
    Wellmade service memo (payloadUpdate memo payload) := by
  refine ⟨rfl, fun none => absurd none Bool.false_ne_true, fun other written => ?_⟩
  injection written with written
  rw [← written]
  show service.extractAll memo.content = .ok (derived payload)
  rw [same]
  exact rebuilt

theorem Agrees.wellmade (agrees : Agrees service writer)
    (h : service.nextUpdate db writer = some (memo, update)) : Wellmade service memo update := by
  cases writer with
  | updating authUserID user memo' input paths pending =>
      injection h with h
      injection h with same same'
      rw [← same, ← same']
      exact agrees
  | quarantining memo' | restoring memo' =>
      injection h with h
      injection h with same same'
      rw [← same, ← same']
      exact wellmade_payloadUpdate agrees rfl
  | publishing nowSec memos =>
      cases memos with
      | nil => cases h
      | cons memo' memos =>
          unfold APIV1Service.nextUpdate at h
          dsimp only at h
          split at h
          · injection h with h
            injection h with same same'
            rw [← same, ← same']
            exact wellmade_payloadUpdate (agrees memo' (.head _)) (derived_published memo')
          · cases h
  | reporting comment memo' creator => cases h
  | ended => cases h

theorem Wellmade.apply_row (wellmade : Wellmade service memo update)
    (rebuilt : Rebuilt service row.content row.payload)
    (same : update.payload.isSome = true → update.content = none → row.content = memo.content) :
    Rebuilt service (update.apply row).content (update.apply row).payload := by
  show Rebuilt service (update.content.getD row.content) (update.payload.getD row.payload)
  cases written : update.payload with
  | none =>
      have unedited : update.content = none := by
        rw [← Option.not_isSome_iff_eq_none]
        intro edited
        have both := wellmade.together edited
        rw [written] at both
        cases both
      rw [unedited]
      exact rebuilt
  | some payload =>
      have made := wellmade.rebuilt payload written
      cases edited : update.content with
      | some content =>
          rw [edited] at made
          exact made
      | none =>
          rw [edited] at made
          have same := same (by rw [written]; rfl) edited
          show Rebuilt service row.content payload
          rw [same]
          exact made

theorem getMemo_of_resolve {name : String} {creator : Option UserRow} {comment : Bool}
    (h : service.resolveModerationTarget db comment name = .ok (memo, creator)) :
    ∃ uid, getMemo db.toState uid = some memo := by
  unfold APIV1Service.resolveModerationTarget at h
  cases named : service.ExtractMemoUIDFromName (String.ofList (trimSpace name.toList)) with
  | error e =>
      rw [named] at h
      cases h
  | ok uid =>
      rw [named] at h
      dsimp only [Except.mapError, bind, Except.bind] at h
      split at h
      · cases h
      · rename_i target found
        split at h
        · cases h
        · injection h with h
          injection h with same _
          exact ⟨uid, found.trans (congrArg some same)⟩

theorem stored_of_writePayload (right : writer.Right service)
    (h : service.writePayload db now writer = .ok db') (stored : db'.memos.find? id = some row) :
    ∃ old, db.memos.find? id = some old := by
  have payload := payloadOf_writePayload right h id
  unfold payloadOf at payload
  cases before : db.memos.find? id with
  | some old => exact ⟨old, rfl⟩
  | none =>
      rw [stored, before] at payload
      cases payload

theorem rebuilt_of_write (agrees : Agrees service writer) (right : writer.Right service)
    (compared : (comparesContent writer || (service.nextUpdate db writer).all
      fun (memo, update) => update.payload.isNone || unedited db memo) = true)
    (rebuilt : ∀ id row, db.memos.find? id = some row → Rebuilt service row.content row.payload)
    (h : service.writePayload db now writer = .ok db') (stored : db'.memos.find? id = some row) :
    Rebuilt service row.content row.payload := by
  obtain ⟨old, before⟩ := stored_of_writePayload right h stored
  obtain ⟨editor, after⟩ := (writePayload_row h).2.2 id old before
  rw [Option.some.inj (stored.symm.trans after)]
  show Rebuilt service (afterUpdate id old (service.nextUpdate db writer)).content
    (afterUpdate id old (service.nextUpdate db writer)).payload
  cases next : service.nextUpdate db writer with
  | none => exact rebuilt id old before
  | some pair =>
      obtain ⟨memo, update⟩ := pair
      have wellmade := agrees.wellmade next
      unfold afterUpdate
      dsimp only
      split
      · rename_i target
        refine wellmade.apply_row (rebuilt id old before) fun written unchanged => ?_
        rw [wellmade.id] at target
        rw [target] at before
        rw [next, Bool.or_eq_true] at compared
        rcases compared with compares | fresh
        · cases writer with
          | updating authUserID user memo' input paths pending =>
              injection next with next
              injection next with same _
              obtain ⟨found, there, content⟩ := content_of_commitUpdate compares h
              rw [same] at there content
              rw [Option.some.inj (before.symm.trans there)]
              exact content
          | _ => cases compares
        · rw [Option.all_some, Bool.or_eq_true] at fresh
          rcases fresh with none | same
          · rw [Option.isNone_iff_eq_none.mp none] at written
            cases written
          · unfold unedited at same
            rw [before, Option.all_some, decide_eq_true_eq] at same
            exact same
      · exact rebuilt id old before

theorem rebuilt_of_rebuildStored (fresh : unedited db memo = true)
    (rebuilt : ∀ id row, db.memos.find? id = some row → Rebuilt service row.content row.payload)
    (stored : (rebuildStored service db now memo).memos.find? id = some row) :
    Rebuilt service row.content row.payload := by
  unfold rebuildStored RebuildMemoPayload at stored
  cases extracted : service.extractAll memo.content with
  | error e =>
      rw [extracted] at stored
      exact rebuilt id row stored
  | ok data =>
      rw [extracted] at stored
      dsimp only [Except.mapError, bind, Except.bind, pure, Except.pure] at stored
      split at stored
      · rename_i state updated
        have stored : state.memos.find? id = some row := stored
        have applied := applyMemoUpdate_of_updateMemo updated
        have payload := applyMemoUpdate_payload applied id
        unfold payloadOf at payload
        cases before : db.memos.find? id with
        | none =>
            rw [stored, before] at payload
            cases payload
        | some old =>
            obtain ⟨editor, after⟩ := (applyMemoUpdate_row applied).2.2 id old before
            rw [Option.some.inj (stored.symm.trans after)]
            show Rebuilt service (if id = memo.id then _ else old : MemoRow).content
              (if id = memo.id then _ else old : MemoRow).payload
            split
            · rename_i target
              unfold unedited at fresh
              rw [← target, before, Option.all_some, decide_eq_true_eq] at fresh
              show service.extractAll old.content = .ok (derived (data.rebuild memo.payload))
              rw [fresh, extracted, derived_rebuild]
            · exact rebuilt id old before
      · exact rebuilt id row stored

end Writers

/-! ### Steps -/

section Steps

variable {service : APIV1Service} {s s' t : Server} {e : Event}

structure Consistent (service : APIV1Service) (s : Server) : Prop where
  rebuilt : ∀ id row, s.system.db.memos.find? id = some row →
    Rebuilt service row.content row.payload
  agrees : ∀ writer ∈ s.system.writers, Agrees service writer
  right : AllRight service s.system

theorem Consistent.of_mem (consistent : Consistent service s) {memo : MemoRow}
    (there : memo ∈ s.system.db.memos) : Rebuilt service memo.content memo.payload :=
  consistent.rebuilt memo.id memo (Keyed.Table.find?_eq_some.mpr ⟨there, rfl⟩)

theorem Consistent.add (consistent : Consistent service s) {writer : Writer}
    (agrees : Agrees service writer) :
    ∀ other ∈ s.system.writers ++ [writer], Agrees service other :=
  List.forall_mem_append.mpr ⟨consistent.agrees, List.forall_mem_singleton.mpr agrees⟩

theorem Consistent.set (consistent : Consistent service s) (i : Nat) {writer : Writer}
    (agrees : Agrees service writer) :
    ∀ other ∈ (s.system.setWriter i writer).writers, Agrees service other :=
  Debts.forall_set consistent.agrees agrees

/-- **An action** of a request, a report or the publisher. -/
theorem Consistent.act (consistent : Consistent service s) {action : WriterAction}
    (fresh : Current service s (.act action)) {system : System}
    (h : service.stepWriter s.system action = some system)
    (here : ∀ db, action ≠ .elsewhere db) :
    Consistent service { s with system } := by
  have right := (consistent.right.step h).1
  have unwritten : ∀ {other : System}, some other = some system → other.db = s.system.db →
      (∀ writer ∈ other.writers, Agrees service writer) → Consistent service { s with system } := by
    intro other same db agrees
    injection same with same
    rw [same] at db agrees
    refine ⟨?_, agrees, right⟩
    show ∀ id row, system.db.memos.find? id = some row → _
    rw [db]
    exact consistent.rebuilt
  cases action with
  | update now settledAt authUserID revisionForce request =>
      unfold APIV1Service.stepWriter at h
      dsimp only at h
      split at h
      · rename_i writer begun
        obtain ⟨input, memoUID, memo, user, update, -, -, found, placed, accepts, rfl⟩ :=
          beginUpdate_read begun
        have agrees : Agrees service (.updating authUserID user memo input request.updateMask
            ((service.masked now user input request.updateMask update memo).settle settledAt)) :=
          wellmade_of_request placed (consistent.of_mem (mem_of_getMemo found).1) accepts
        exact unwritten h rfl (consistent.add agrees)
      · exact unwritten h rfl consistent.agrees
  | report comment name =>
      unfold APIV1Service.stepWriter at h
      dsimp only at h
      split at h
      · rename_i memo creator resolved
        obtain ⟨uid, found⟩ := getMemo_of_resolve resolved
        have agrees : Agrees service (.reporting comment memo creator) :=
          consistent.of_mem (mem_of_getMemo found).1
        exact unwritten h rfl (consistent.add agrees)
      · exact unwritten h rfl consistent.agrees
  | count i setting count =>
      unfold APIV1Service.stepWriter at h
      dsimp only at h
      split at h
      · rename_i comment memo creator here
        have agrees := consistent.agrees _ (List.mem_of_getElem? here)
        refine unwritten h rfl (consistent.set i ?_)
        split
        · exact agrees
        · trivial
      · cases h
  | scan nowSec =>
      have agrees : Agrees service (.publishing nowSec (scheduledMemos s.system.db nowSec)) := by
        intro memo there
        have there : memo ∈ s.system.db.memos.select _ := (List.mem_insertionSort _).mp there
        exact consistent.of_mem (Keyed.Table.mem_select.mp there).1
      exact unwritten h rfl (consistent.add agrees)
  | askRestore memoID =>
      unfold APIV1Service.stepWriter at h
      dsimp only at h
      split at h
      · rename_i memo found
        have agrees : Agrees service (.restoring memo) :=
          consistent.rebuilt memoID memo (Option.filter_eq_some_iff.mp found).1
        exact unwritten h rfl (consistent.add agrees)
      · exact unwritten h rfl consistent.agrees
  | write i now =>
      unfold APIV1Service.stepWriter at h
      dsimp only at h
      split at h
      · cases h
      · cases h
      · cases h
      · rename_i writer _ _ here
        have agrees := consistent.agrees writer (List.mem_of_getElem? here)
        split at h
        · rename_i db written
          injection h with h
          rw [← h]
          unfold Current current at fresh
          dsimp only at fresh
          rw [here, Option.all_some] at fresh
          rw [← h] at right
          refine ⟨fun id row stored => ?_, consistent.set i agrees.next, right⟩
          exact rebuilt_of_write agrees (consistent.right writer (List.mem_of_getElem? here)) fresh
            consistent.rebuilt written stored
        · exact unwritten h rfl (consistent.set i agrees.next)
  | stop i => exact unwritten h rfl (consistent.set i trivial)
  | elsewhere db => exact absurd rfl (here db)

/-- **A step** keeps the payloads in agreement with the contents. -/
theorem Consistent.step (consistent : Consistent service s) (fresh : Current service s e)
    (h : step service s e = some s') : Consistent service s' := by
  cases e with
  | act action =>
      unfold Payloads.step at h
      split at h
      · cases h
      · rename_i action' here same
        injection same with same
        rw [← same] at h here
        obtain ⟨system, next, rfl⟩ := Option.map_eq_some_iff.mp h
        exact consistent.act fresh next here
      all_goals rename_i same; cases same
  | runOnce =>
      injection h with h
      rw [← h]
      exact ⟨consistent.rebuilt, consistent.agrees, consistent.right⟩
  | rebuild i now =>
      unfold Payloads.step at h
      dsimp only at h
      unfold Current current at fresh
      dsimp only at fresh
      split at h
      · injection h with h
        rw [← h]
        exact ⟨consistent.rebuilt, consistent.agrees, consistent.right⟩
      · rename_i offset memo memos here
        injection h with h
        rw [← h]
        rw [here] at fresh
        exact ⟨fun id row stored => rebuilt_of_rebuildStored fresh consistent.rebuilt stored,
          consistent.agrees, consistent.right⟩
      · cases h
  | stop i =>
      injection h with h
      rw [← h]
      exact ⟨consistent.rebuilt, consistent.agrees, consistent.right⟩
  | elsewhere db =>
      unfold Payloads.step at h
      dsimp only at h
      split at h
      · rename_i kept
        injection h with h
        rw [← h]
        refine ⟨fun id row stored => ?_, consistent.agrees, consistent.right⟩
        obtain ⟨there, key⟩ := Keyed.Table.find?_eq_some.mp stored
        have key : row.id = id := key
        have row_kept := List.all_eq_true.mp kept row there
        cases before : s.system.db.memos.find? row.id with
        | none =>
            rw [before] at row_kept
            exact isRebuilt_iff.mp row_kept
        | some old =>
            rw [before] at row_kept
            simp only [Bool.and_eq_true, decide_eq_true_eq] at row_kept
            rw [row_kept.1, row_kept.2]
            exact consistent.rebuilt row.id old before
      · cases h

end Steps

/-- **Payloads say what the contents say.**

Start with no request on its way, and with payloads that hold what `ExtractAll` computes from
the contents.  Take any run of requests, reports, passes of the publisher and of the runner,
restorations, creations and deletions, each interrupted and stopped anywhere, in which a payload
that the store writes without comparing the contents is written over the content it was read
with.  In every state of the run each memo has the tags and the properties of its content. -/
theorem rebuilt_kept (service : APIV1Service) {s t : Server} (fresh : s.system.writers = [])
    (rebuilt : ∀ memo ∈ s.system.db.memos, Rebuilt service memo.content memo.payload)
    (run : Run (step service) (Current service) s t) :
    ∀ memo ∈ t.system.db.memos, Rebuilt service memo.content memo.payload := by
  have start : Consistent service s := by
    refine ⟨fun id row stored => rebuilt row (Keyed.Table.find?_eq_some.mp stored).1, ?_, ?_⟩
    · rw [fresh]
      exact List.forall_mem_nil _
    · unfold AllRight
      rw [fresh]
      exact List.forall_mem_nil _
  have consistent := run.invariant start fun _ _ _ consistent fresh next => consistent.step fresh next
  exact fun memo there => consistent.of_mem there

/-! ### A tag -/

def taggingService : APIV1Service :=
  { plainService with
    extractAll := fun content =>
      .ok ⟨if content = "#soup" then ["soup"] else [], "", false, false, false, false⟩ }

def soupServer : Server := { system := Publication.lunchServer.system, passes := [] }

def editSoup : Event :=
  .act (.update 60 60 5 false ⟨some { name := "memos/lunch", content := "#soup" }, [.content]⟩)

def locateSoup : Event := .act (.update 60 60 5 false ⟨some { name := "memos/lunch" }, [.location]⟩)

theorem soup_rebuilt : ∀ memo ∈ soupServer.system.db.memos,
    Rebuilt taggingService memo.content memo.payload := by
  intro memo there
  rw [List.mem_singleton.mp there]
  rfl

/-- She does one after the other, and the runner passes in between. -/
theorem rebuilt_kept_soup : ∃ t row,
    follow (step taggingService) (Current taggingService) soupServer
      [editSoup, .act (.write 0 60), .runOnce, .rebuild 0 60, .rebuild 0 60, locateSoup,
        .act (.write 1 60)] = some t ∧
    t.system.db.memos.find? 7 = some row ∧ row.content = "#soup" ∧
    Rebuilt taggingService row.content row.payload := by
  have content : ((follow (step taggingService) (Current taggingService) soupServer
      [editSoup, .act (.write 0 60), .runOnce, .rebuild 0 60, .rebuild 0 60, locateSoup,
        .act (.write 1 60)]).bind fun t =>
          (t.system.db.memos.find? 7).map MemoRow.content) = some "#soup" := by
    decide +kernel
  obtain ⟨t, run, row⟩ := Option.bind_eq_some_iff.mp content
  obtain ⟨row, there, content⟩ := Option.map_eq_some_iff.mp row
  exact ⟨t, row, run, there, content, rebuilt_kept taggingService rfl soup_rebuilt
    (run_of_follow run) row (Keyed.Table.find?_eq_some.mp there).1⟩

/-- She says where it was with the payload of the old content, after she has written the new
one. -/
theorem edit_keeps_old_tags : ∃ t row,
    (∀ memo ∈ soupServer.system.db.memos, Rebuilt taggingService memo.content memo.payload) ∧
    follow (step taggingService) (fun _ _ => True) soupServer
      [locateSoup, editSoup, .act (.write 1 60), .act (.write 0 60)] = some t ∧
    t.system.db.memos.find? 7 = some row ∧ row.content = "#soup" ∧ row.payload.tags = [] ∧
    ¬ Rebuilt taggingService row.content row.payload := by
  have torn : ((follow (step taggingService) (fun _ _ => True) soupServer
      [locateSoup, editSoup, .act (.write 1 60), .act (.write 0 60)]).bind fun t =>
        (t.system.db.memos.find? 7).map fun row => (row.content, row.payload.tags))
      = some ("#soup", []) := by
    decide +kernel
  obtain ⟨t, run, row⟩ := Option.bind_eq_some_iff.mp torn
  obtain ⟨row, there, both⟩ := Option.map_eq_some_iff.mp row
  injection both with content tags
  refine ⟨t, row, soup_rebuilt, run, there, content, tags, fun rebuilt => ?_⟩
  have same := congrArg ExtractedData.tags (Except.ok.inj rebuilt)
  rw [content] at same
  exact absurd (same.trans tags) (by decide)

end Memos.Api.Payloads

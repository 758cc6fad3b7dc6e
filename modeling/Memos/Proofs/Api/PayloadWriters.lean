/-
When a flag of a memo lasts.

Three flags of the payload say whether others may see a memo: that it is in quarantine,
that it is a draft, and that it is hidden.  Each writer decides some of them and carries
the others over from the payload it has read.  If these are still what is stored when it
writes, it takes nothing back; if they are not, the old flag is written over the new one.

An update never decides the quarantine, whatever its mask lists, and neither does the
publisher: only the moderation and the administrators do.
-/
import Memos.Api.PayloadWriters
import Memos.Proofs.Api.MemoAudience

namespace Memos.Api

open Store Access Runs

/-! ### Flags -/

inductive Flag where
  | quarantined
  | draft
  | hidden

def Flag.of : Flag → MemoPayload → Bool
  | .quarantined, payload => payload.quarantined
  | .draft, payload => payload.draft
  | .hidden, payload => payload.hidden

section Service

variable (service : APIV1Service)

/-- The flags a writer means to set. -/
def APIV1Service.decides (db : Tables) : Writer → Flag → Bool
  | .updating _ _ _ _ paths _, .hidden => paths.contains .hidden
  | .updating _ _ _ input paths _, .draft =>
      paths.contains .draft || (paths.contains .publishTime && input.publishTime.isSome)
  | .quarantining _, .quarantined => true
  | .restoring _, .quarantined => true
  | .publishing _ (memo :: _), .draft => service.passesReview db memo
  | _, _ => false

/-- The flags a writer carries over are stored as it has read them, if it writes the payload. -/
def APIV1Service.upToDate (db : Tables) (writer : Writer) : Bool :=
  match service.nextUpdate db writer with
  | none => true
  | some (memo, update) =>
      update.payload.isNone || [Flag.quarantined, .draft, .hidden].all fun flag =>
        service.decides db writer flag ||
          (payloadOf db.toState memo.id).all fun stored =>
            decide (flag.of stored = flag.of memo.payload)

def APIV1Service.careful (s : System) : WriterAction → Bool
  | .write i _ => (s.writers[i]?).all (service.upToDate s.db)
  | _ => true

def APIV1Service.Careful (s : System) (a : WriterAction) : Prop := service.careful s a = true

instance (s : System) (a : WriterAction) : Decidable (service.Careful s a) :=
  inferInstanceAs (Decidable (service.careful s a = true))

def stored (id : Int) (s : System) : Bool := (payloadOf s.db.toState id).isSome

/-- The step writes the payload of the memo, and decides the flag. -/
def APIV1Service.decidesIn (flag : Flag) (id : Int) (s : System) : WriterAction → Bool
  | .write i _ =>
      (s.writers[i]?).any fun writer =>
        (service.nextUpdate s.db writer).any fun (memo, _) =>
          decide (memo.id = id) && service.decides s.db writer flag
  | _ => false

def restores (id : Int) (s : System) : WriterAction → Bool
  | .write i _ =>
      match s.writers[i]? with
      | some (.restoring memo) => decide (memo.id = id)
      | _ => false
  | _ => false

/-- A careful step while the memo is there, other than its restoration. -/
def APIV1Service.Unrestored (id : Int) (s : System) (a : WriterAction) : Prop :=
  (service.careful s a && stored id s && !restores id s a) = true

/-- A careful step while the memo is there that does not decide the flag. -/
def APIV1Service.Undecided (flag : Flag) (id : Int) (s : System) (a : WriterAction) : Prop :=
  (service.careful s a && stored id s && !service.decidesIn flag id s a) = true

instance (id : Int) (s : System) (a : WriterAction) : Decidable (service.Unrestored id s a) :=
  inferInstanceAs (Decidable (_ = true))

instance (flag : Flag) (id : Int) (s : System) (a : WriterAction) :
    Decidable (service.Undecided flag id s a) :=
  inferInstanceAs (Decidable (_ = true))

/-! ### What a writer writes -/

/-- The update of a request is about its memo, and carries over the flags it does not
decide. -/
def Writer.Right : Writer → Prop
  | .updating authUserID user memo input paths pending =>
      pending.update.id = memo.id ∧
        ∀ payload, pending.update.payload = some payload → ∀ db flag,
          service.decides db (.updating authUserID user memo input paths pending) flag = false →
            flag.of payload = flag.of memo.payload
  | _ => True

end Service

section Requests

variable {service : APIV1Service} {db db' : Tables} {now authUserID : Int} {revisionForce : Bool}
  {settledAt : Int} {request : UpdateMemoRequest} {paths : List UpdatePath} {input : ProtoMemo} {memo : MemoRow}
  {user : UserRow} {update : UpdateMemo}

/-- What a request has read when it gets past its mask. -/
theorem beginUpdate_read {writer : Writer}
    (h : service.beginUpdate db now settledAt authUserID revisionForce request = .ok writer) :
    ∃ input memoUID memo user update, request.memo = some input ∧
      service.ExtractMemoUIDFromName input.name = .ok memoUID ∧
      getMemo db.toState memoUID = some memo ∧
      service.placeUpdate db.toState user memo input request.updateMask revisionForce
        = .ok update ∧
      (∀ path ∈ request.updateMask,
        service.Accepts now user (isComment db memo) input path) ∧
      writer = .updating authUserID user memo input request.updateMask
        ((service.masked now user input request.updateMask update memo).settle settledAt) := by
  obtain ⟨input, given, h⟩ := bind_accepted.mp h
  obtain ⟨memoUID, named, h⟩ := bind_accepted.mp h
  obtain ⟨_, -, h⟩ := bind_accepted.mp h
  obtain ⟨memo, found, h⟩ := bind_accepted.mp h
  obtain ⟨caller, -, h⟩ := bind_accepted.mp h
  obtain ⟨user, -, h⟩ := bind_accepted.mp h
  obtain ⟨_, -, h⟩ := bind_accepted.mp h
  obtain ⟨update, placed, h⟩ := bind_accepted.mp h
  obtain ⟨_, -, h⟩ := bind_accepted.mp h
  obtain ⟨pending, masked, h⟩ := bind_accepted.mp h
  rw [pure_accepted] at h
  obtain ⟨accepts, rfl⟩ := (updatePaths_accepted service now user _ input).mp masked
  exact ⟨input, memoUID, memo, user, update, orRefuse_accepted.mp given, refused_accepted.mp named,
    orRefuse_accepted.mp found, placed, accepts, h.symm⟩

variable (now) in
theorem settle_content (pending : PendingUpdate) :
    (pending.settle now).update.content = pending.update.content ∧
      (pending.update.payload.isSome = true →
        (pending.settle now).update.payload.isSome = true) := by
  unfold PendingUpdate.settle
  dsimp only
  split
  · split
    · exact ⟨rfl, fun _ => rfl⟩
    · exact ⟨rfl, fun written => written⟩
  · split
    · exact ⟨rfl, fun _ => rfl⟩
    · exact ⟨rfl, fun written => written⟩

theorem settled_pollUpdated
    (changed : ((service.masked now user input paths update memo).settle settledAt).pollUpdated
      = true) :
    ((service.masked now user input paths update memo).settle settledAt).update.payload.isSome = true := by
  have masked : (service.masked now user input paths update memo).pollUpdated = true →
      (service.masked now user input paths update memo).update.payload.isSome = true := by
    refine masked_invariant (P := fun pending => pending.pollUpdated = true →
      pending.update.payload.isSome = true) ?_ fun changed => by cases changed
    intro pending path _ kept
    cases path with
    | visibility | space | pinned | state | createTime | updateTime | displayTime | attachments
    | relations | unrecognised => exact kept
    | content | location | category | hidden | hideTime | anonymous | adminScript | draft
    | publishTime | poll => exact fun _ => rfl
  refine (settle_content settledAt _).2 (masked ?_)
  rw [← changed]
  unfold PendingUpdate.settle
  dsimp only
  split
  · split
    · rfl
    · rfl
  · split
    · rfl
    · rfl

/-- The draft flag is the stored one, unless the mask asks for another. -/
theorem masked_draft_kept (unlisted : .draft ∉ paths)
    (unscheduled : .publishTime ∈ paths → input.publishTime = none) :
    (service.masked now user input paths update memo).nextMemo.payload.draft
      = memo.payload.draft := by
  refine masked_invariant (P := fun pending =>
    pending.nextMemo.payload.draft = memo.payload.draft) ?_ rfl
  intro pending path listed same
  cases path with
  | draft => exact absurd listed unlisted
  | publishTime =>
      rw [effect_publishTime]
      unfold schedule
      rw [unscheduled listed]
      exact same
  | _ => exact same

theorem right_of_placed (placed : Placed memo input paths update) : Writer.Right service
    (.updating authUserID user memo input paths
      ((service.masked now user input paths update memo).settle settledAt)) := by
  refine ⟨settled_place.1.trans placed.id, fun payload written db flag carried => ?_⟩
  rw [settled_payload placed written]
  cases flag with
  | quarantined =>
      show (settlePayload settledAt _).quarantined = memo.payload.quarantined
      rw [quarantined_settlePayload, masked_quarantined]
  | draft =>
      show (settlePayload settledAt _).draft = memo.payload.draft
      have carried : (paths.contains .draft ||
          (paths.contains .publishTime && input.publishTime.isSome)) = false := carried
      rw [Bool.or_eq_false_iff] at carried
      obtain ⟨unlisted, unscheduled⟩ := carried
      rw [draft_settlePayload]
      refine masked_draft_kept (fun listed => ?_) fun listed => ?_
      · rw [List.contains_iff_mem.mpr listed] at unlisted
        cases unlisted
      · rw [List.contains_iff_mem.mpr listed, Bool.true_and] at unscheduled
        exact Option.not_isSome_iff_eq_none.mp (Bool.eq_false_iff.mp unscheduled)
  | hidden =>
      show (settlePayload settledAt _).hidden = memo.payload.hidden
      have carried : paths.contains .hidden = false := carried
      rw [hidden_settlePayload]
      refine masked_hidden fun listed => ?_
      rw [List.contains_iff_mem.mpr listed] at carried
      cases carried

/-- What a writer hands to the store carries over the flags it does not decide. -/
theorem carried_of_nextUpdate {writer : Writer} (right : writer.Right service)
    (h : service.nextUpdate db writer = some (memo, update)) :
    update.id = memo.id ∧ ∀ payload, update.payload = some payload → ∀ flag,
      service.decides db writer flag = false → flag.of payload = flag.of memo.payload := by
  cases writer with
  | updating authUserID user memo' input paths pending =>
      injection h with h
      injection h with same same'
      rw [← same, ← same']
      exact ⟨right.1, fun payload written flag => right.2 payload written db flag⟩
  | quarantining memo' | restoring memo' =>
      injection h with h
      injection h with same same'
      rw [← same, ← same']
      refine ⟨rfl, fun payload written flag carried => ?_⟩
      injection written with written
      rw [← written]
      cases flag with
      | quarantined => cases carried
      | draft => rfl
      | hidden => rfl
  | publishing nowSec memos =>
      cases memos with
      | nil => cases h
      | cons memo' memos =>
          unfold APIV1Service.nextUpdate at h
          dsimp only at h
          split at h
          · injection h with h
            injection h with same same'
            rw [← same, ← same']
            refine ⟨rfl, fun payload written flag carried => ?_⟩
            injection written with written
            rw [← written]
            unfold APIV1Service.published
            cases flag with
            | quarantined =>
                split
                · rfl
                · rfl
            | draft =>
                have held : service.passesReview db memo' = false := carried
                rw [held]
                rfl
            | hidden =>
                split
                · rfl
                · rfl
          · cases h
  | reporting comment memo' creator => cases h
  | ended => cases h

/-- What an update makes of the stored payload of a memo. -/
def rewritten (id : Int) (stored : MemoPayload) : Option (MemoRow × UpdateMemo) → MemoPayload
  | none => stored
  | some (memo, update) => if id = memo.id then update.payload.getD stored else stored

/-- A write of a payload is the update of a row, or nothing. -/
theorem applied_of_writePayload {writer : Writer} (h : service.writePayload db now writer = .ok db') :
    service.nextUpdate db writer = none ∧ db' = db ∨
      ∃ memo update policy, service.nextUpdate db writer = some (memo, update) ∧
        applyMemoUpdate db.toState now { update with policy } = .ok db'.toState := by
  have alone : (match service.nextUpdate db writer with
      | none => (.ok db : Except Status Tables)
      | some (_, update) =>
          (written "failed to update memo"
            (Store.updateMemo service.validUID db.toState now update)).map fun state =>
              { db with toState := state }) = .ok db' →
      service.nextUpdate db writer = none ∧ db' = db ∨
        ∃ memo update policy, service.nextUpdate db writer = some (memo, update) ∧
          applyMemoUpdate db.toState now { update with policy } = .ok db'.toState := by
    intro h
    cases next : service.nextUpdate db writer with
    | none =>
        rw [next] at h
        injection h with h
        exact .inl ⟨rfl, h.symm⟩
    | some pair =>
        obtain ⟨memo, update⟩ := pair
        rw [next] at h
        obtain ⟨state, updated, rfl⟩ := map_accepted.mp h
        exact .inr ⟨memo, update, update.policy, rfl,
          applyMemoUpdate_of_updateMemo (written_accepted.mp updated)⟩
  cases writer with
  | updating authUserID user memo input paths pending =>
      obtain ⟨policy, update⟩ := applyMemoUpdate_of_commitUpdate h
      exact .inr ⟨memo, pending.update, policy, rfl, update⟩
  | reporting comment memo creator => exact alone h
  | quarantining memo => exact alone h
  | publishing nowSec memos => exact alone h
  | restoring memo => exact alone h
  | ended => exact alone h

theorem payloadOf_writePayload {writer : Writer} (right : writer.Right service)
    (h : service.writePayload db now writer = .ok db') (id : Int) :
    payloadOf db'.toState id = (payloadOf db.toState id).map fun stored =>
      rewritten id stored (service.nextUpdate db writer) := by
  rcases applied_of_writePayload h with ⟨next, rfl⟩ | ⟨memo, update, policy, next, applied⟩
  · rw [next]
    exact Option.map_id'.symm
  · have target : update.id = memo.id := (carried_of_nextUpdate right next).1
    have payload := applyMemoUpdate_payload applied id
    dsimp only at payload
    rw [target] at payload
    rw [next]
    exact payload

/-- What an update makes of a row. -/
def afterUpdate (id : Int) (row : MemoRow) : Option (MemoRow × UpdateMemo) → MemoRow
  | none => row
  | some (_, update) => if id = update.id then update.apply row else row

theorem writePayload_row {writer : Writer} (h : service.writePayload db now writer = .ok db') :
    SameTables db'.toState db.toState ∧
      db'.toState.allowsAnonymousAccess = db.toState.allowsAnonymousAccess ∧
      ∀ id row, db.memos.find? id = some row → ∃ editor, db'.memos.find? id = some
        { afterUpdate id row (service.nextUpdate db writer) with lastEditorID := editor } := by
  rcases applied_of_writePayload h with ⟨next, rfl⟩ | ⟨memo, update, policy, next, applied⟩
  · rw [next]
    exact ⟨⟨rfl, rfl, rfl, rfl⟩, rfl, fun id row stored => ⟨row.lastEditorID, stored⟩⟩
  · obtain ⟨tables, anonymous, rows⟩ := applyMemoUpdate_row applied
    rw [next]
    exact ⟨tables, anonymous, rows⟩

end Requests

/-! ### Steps -/

section Steps

variable {service : APIV1Service} {s s' : System} {a : WriterAction}

def AllRight (service : APIV1Service) (s : System) : Prop :=
  ∀ writer ∈ s.writers, writer.Right service

theorem AllRight.add (right : AllRight service s) {writer : Writer}
    (new : writer.Right service) : AllRight service { s with writers := s.writers ++ [writer] } :=
  List.forall_mem_append.mpr ⟨right, List.forall_mem_singleton.mpr new⟩

theorem AllRight.set (right : AllRight service s) {i : Nat} {writer : Writer}
    (new : writer.Right service) : AllRight service (s.setWriter i writer) := Debts.forall_set right new

theorem right_next (writer : Writer) : writer.next.Right service := by
  cases writer with
  | publishing nowSec memos =>
      cases memos with
      | nil => trivial
      | cons memo memos => trivial
  | _ => trivial

/-- A step adds a writer that has read, moves one on, or lets one write; and whatever else
happens keeps the payloads. -/
theorem AllRight.step (right : AllRight service s) (h : service.stepWriter s a = some s') :
    AllRight service s' ∧
      ((∀ id p q, payloadOf s.db.toState id = some p → payloadOf s'.db.toState id = some q → q = p) ∨
        ∃ i now writer, a = .write i now ∧ s.writers[i]? = some writer ∧
          service.writePayload s.db now writer = .ok s'.db) := by
  have same : ∀ id p q, payloadOf s.db.toState id = some p → payloadOf s.db.toState id = some q →
      q = p := by
    intro id p q before after
    exact Option.some.inj (after.symm.trans before)
  cases a with
  | update now settledAt authUserID revisionForce request =>
      unfold APIV1Service.stepWriter at h
      dsimp only at h
      split at h
      · rename_i writer begun
        injection h with h
        rw [← h]
        obtain ⟨input, _, memo, user, update, -, -, -, placed, -, rfl⟩ := beginUpdate_read begun
        exact ⟨right.add (right_of_placed (placed_of_placeUpdate placed)), .inl same⟩
      · injection h with h
        rw [← h]
        exact ⟨right, .inl same⟩
  | report comment name =>
      unfold APIV1Service.stepWriter at h
      dsimp only at h
      split at h
      · injection h with h
        rw [← h]
        exact ⟨right.add trivial, .inl same⟩
      · injection h with h
        rw [← h]
        exact ⟨right, .inl same⟩
  | count i setting count =>
      unfold APIV1Service.stepWriter at h
      dsimp only at h
      split at h
      · injection h with h
        rw [← h]
        refine ⟨right.set ?_, .inl same⟩
        split
        · trivial
        · trivial
      · cases h
  | scan nowSec =>
      injection h with h
      rw [← h]
      exact ⟨right.add trivial, .inl same⟩
  | askRestore memoID =>
      unfold APIV1Service.stepWriter at h
      dsimp only at h
      split at h
      · injection h with h
        rw [← h]
        exact ⟨right.add trivial, .inl same⟩
      · injection h with h
        rw [← h]
        exact ⟨right, .inl same⟩
  | write i now =>
      unfold APIV1Service.stepWriter at h
      dsimp only at h
      split at h
      · cases h
      · cases h
      · cases h
      · rename_i writer _ _ here
        split at h
        · rename_i db written
          injection h with h
          rw [← h]
          exact ⟨right.set (right_next writer), .inr ⟨i, now, writer, rfl, here, written⟩⟩
        · injection h with h
          rw [← h]
          exact ⟨right.set (right_next writer), .inl same⟩
  | stop i =>
      injection h with h
      rw [← h]
      exact ⟨right.set trivial, .inl same⟩
  | elsewhere db =>
      unfold APIV1Service.stepWriter at h
      dsimp only at h
      split at h
      · rename_i kept
        injection h with h
        rw [← h]
        refine ⟨right, .inl fun id p q before after => ?_⟩
        obtain ⟨old, stored, rfl⟩ := Option.map_eq_some_iff.mp before
        obtain ⟨row, stored', rfl⟩ := Option.map_eq_some_iff.mp after
        obtain ⟨there, key⟩ := Keyed.Table.find?_eq_some.mp stored'
        have row_kept := List.all_eq_true.mp kept row there
        have key : row.id = id := key
        rw [key, stored] at row_kept
        exact of_decide_eq_true row_kept
      · cases h

theorem payload_of_step (right : AllRight service s) (h : service.stepWriter s a = some s')
    {id : Int} {p q : MemoPayload} (before : payloadOf s.db.toState id = some p)
    (after : payloadOf s'.db.toState id = some q) :
    q = p ∨ ∃ i now writer memo update, a = .write i now ∧ s.writers[i]? = some writer ∧
      service.nextUpdate s.db writer = some (memo, update) ∧ memo.id = id ∧
      update.payload = some q := by
  rcases (right.step h).2 with kept | ⟨i, now, writer, rfl, here, written⟩
  · exact .inl (kept id p q before after)
  · have right := right writer (List.mem_of_getElem? here)
    rw [payloadOf_writePayload right written, before] at after
    injection after with after
    cases next : service.nextUpdate s.db writer with
    | none =>
        rw [next] at after
        exact .inl after.symm
    | some pair =>
        obtain ⟨memo, update⟩ := pair
        rw [next] at after
        have after : (if id = memo.id then update.payload.getD p else p) = q := after
        split at after
        · rename_i target
          cases payload : update.payload with
          | none =>
              rw [payload] at after
              exact .inl after.symm
          | some new =>
              rw [payload] at after
              have after : new = q := after
              rw [after] at payload
              exact .inr ⟨i, now, writer, memo, update, rfl, here, next, target.symm, payload⟩
        · exact .inl after.symm

/-- A careful writer has read the flags it carries over as they are stored. -/
theorem carried_of_careful {i : Nat} {now : Int} {writer : Writer} {memo : MemoRow}
    {update : UpdateMemo} {payload p : MemoPayload} (careful : service.Careful s (.write i now))
    (here : s.writers[i]? = some writer)
    (next : service.nextUpdate s.db writer = some (memo, update))
    (written : update.payload = some payload) (before : payloadOf s.db.toState memo.id = some p)
    (flag : Flag) : service.decides s.db writer flag = true ∨ flag.of p = flag.of memo.payload := by
  unfold APIV1Service.Careful APIV1Service.careful APIV1Service.upToDate at careful
  dsimp only at careful
  rw [here, Option.all_some, next] at careful
  simp only [written, before, Option.isNone_some, Bool.false_or, List.all_cons, List.all_nil,
    Bool.and_true, Bool.and_eq_true, Option.all_some, Bool.or_eq_true, decide_eq_true_eq] at careful
  obtain ⟨quarantined, draft, hidden⟩ := careful
  cases flag with
  | quarantined => exact quarantined
  | draft => exact draft
  | hidden => exact hidden

theorem flag_of_step (right : AllRight service s) {flag : Flag} {id : Int}
    (undecided : service.Undecided flag id s a) (h : service.stepWriter s a = some s')
    {p q : MemoPayload} (before : payloadOf s.db.toState id = some p)
    (after : payloadOf s'.db.toState id = some q) : flag.of q = flag.of p := by
  unfold APIV1Service.Undecided at undecided
  rw [Bool.and_eq_true, Bool.and_eq_true, Bool.not_eq_true'] at undecided
  obtain ⟨⟨careful, -⟩, undecided⟩ := undecided
  rcases payload_of_step right h before after with same |
    ⟨i, now, writer, memo, update, rfl, here, next, rfl, written⟩
  · rw [same]
  · have carries : service.decides s.db writer flag = false := by
      unfold APIV1Service.decidesIn at undecided
      dsimp only at undecided
      rw [here, Option.any_some, next, Option.any_some] at undecided
      simpa using undecided
    have right := right writer (List.mem_of_getElem? here)
    rw [(carried_of_nextUpdate right next).2 q written flag carries]
    rcases carried_of_careful careful here next written before flag with decided | same
    · rw [decided] at carries
      cases carries
    · exact same.symm

/-- Only a restoration ends a quarantine. -/
theorem quarantined_of_step (right : AllRight service s) {id : Int}
    (unrestored : service.Unrestored id s a) (h : service.stepWriter s a = some s')
    {p q : MemoPayload} (before : payloadOf s.db.toState id = some p)
    (after : payloadOf s'.db.toState id = some q) (quarantined : p.quarantined = true) :
    q.quarantined = true := by
  unfold APIV1Service.Unrestored at unrestored
  rw [Bool.and_eq_true, Bool.and_eq_true, Bool.not_eq_true'] at unrestored
  obtain ⟨⟨careful, -⟩, unrestored⟩ := unrestored
  rcases payload_of_step right h before after with same |
    ⟨i, now, writer, memo, update, rfl, here, next, rfl, written⟩
  · rw [same]
    exact quarantined
  · have right := right writer (List.mem_of_getElem? here)
    cases decided : service.decides s.db writer .quarantined with
    | false =>
        have carried := (carried_of_nextUpdate right next).2 q written .quarantined decided
        rcases carried_of_careful careful here next written before .quarantined with yes | same
        · rw [decided] at yes
          cases yes
        · exact carried.trans (same.symm.trans quarantined)
    | true =>
        cases writer with
        | quarantining read =>
            injection next with next
            injection next with same same'
            rw [← same'] at written
            injection written with written
            rw [← written]
        | restoring read =>
            injection next with next
            injection next with same same'
            unfold restores at unrestored
            dsimp only at unrestored
            rw [here, same] at unrestored
            simp at unrestored
        | updating authUserID user read input paths pending => cases decided
        | publishing nowSec memos =>
            cases memos with
            | nil => cases decided
            | cons read memos => cases decided
        | reporting comment read creator => cases decided
        | ended => cases decided

end Steps

/-! ### The result -/

/-- **When a flag of a memo lasts.**

Start with no writer on its way, and take any run in which whoever writes a payload finds
the flags it carries over stored as it has read them: for an update those of quarantine,
draft and hiding that its mask does not ask for, for the moderation and for a restoration
all but the quarantine, and for the publisher all but the draft, and that too where the
review holds the memo back.

A memo that is in quarantine then stays there, as long as it is stored and no
administrator restores it.  And none of the three flags changes, unless somebody whose
business it is writes it. -/
theorem flags_kept (service : APIV1Service) {s t : System} (fresh : s.writers = [])
    (run : Run service.stepWriter service.Careful s t) (id : Int) {p : MemoPayload}
    (there : payloadOf t.db.toState id = some p) :
    (p.quarantined = true → ∀ u, Run service.stepWriter (service.Unrestored id) t u →
      ∀ q, payloadOf u.db.toState id = some q → q.quarantined = true) ∧
    ∀ flag u, Run service.stepWriter (service.Undecided flag id) t u →
      ∀ q, payloadOf u.db.toState id = some q → flag.of q = flag.of p := by
  have right : AllRight service t := by
    refine run.invariant ?_ fun _ _ _ right _ next => (right.step next).1
    unfold AllRight
    rw [fresh]
    exact List.forall_mem_nil _
  refine ⟨fun quarantined u rest => ?_, fun flag u rest => ?_⟩
  · refine (rest.invariant (P := fun v => AllRight service v ∧
      ∀ q, payloadOf v.db.toState id = some q → q.quarantined = true) ⟨right, ?_⟩ ?_).2
    · intro q same
      rw [there] at same
      injection same with same
      rw [← same]
      exact quarantined
    · intro v w a ⟨right, before⟩ unrestored next
      refine ⟨(right.step next).1, fun q after => ?_⟩
      have kept := unrestored
      unfold APIV1Service.Unrestored at kept
      rw [Bool.and_eq_true, Bool.and_eq_true] at kept
      obtain ⟨r, stored⟩ := Option.isSome_iff_exists.mp kept.1.2
      exact quarantined_of_step right unrestored next stored after (before r stored)
  · refine (rest.invariant (P := fun v => AllRight service v ∧
      ∀ q, payloadOf v.db.toState id = some q → flag.of q = flag.of p) ⟨right, ?_⟩ ?_).2
    · intro q same
      rw [there] at same
      injection same with same
      rw [same]
    · intro v w a ⟨right, before⟩ undecided next
      refine ⟨(right.step next).1, fun q after => ?_⟩
      have kept := undecided
      unfold APIV1Service.Undecided at kept
      rw [Bool.and_eq_true, Bool.and_eq_true] at kept
      obtain ⟨r, stored⟩ := Option.isSome_iff_exists.mp kept.1.2
      exact (flag_of_step right undecided next stored after).trans (before r stored)

/-! ### A report and an update -/

def reportedMemo : MemoRow := .withDefaults 7 "lunch" 5 .Public none

def reportedSystem : System where
  db := { secretTables with memos := ⟨[reportedMemo], by decide, by decide⟩ }
  writers := []

def oneReport : ModerationSecuritySetting := ⟨1, 1⟩

def moveLunch : WriterAction :=
  .update 50 50 5 false ⟨some { name := "memos/lunch" }, [.location]⟩

def reportLunch : List WriterAction :=
  [.report false "memos/lunch", .count 0 oneReport 1, .write 0 40]

theorem flags_kept_reported : ∃ t u,
    follow plainService.stepWriter plainService.Careful reportedSystem reportLunch = some t ∧
    follow plainService.stepWriter (plainService.Unrestored 7) t [moveLunch, .write 1 51] = some u ∧
    ∀ q, payloadOf u.db.toState 7 = some q → q.quarantined = true := by
  obtain ⟨t, u, before, after, there⟩ : ∃ t u,
      follow plainService.stepWriter plainService.Careful reportedSystem reportLunch = some t ∧
      follow plainService.stepWriter (plainService.Unrestored 7) t [moveLunch, .write 1 51]
        = some u ∧
      payloadOf t.db.toState 7 = some { reportedMemo.payload with quarantined := true } :=
    ⟨_, _, rfl, rfl, rfl⟩
  refine ⟨t, u, before, after, ?_⟩
  exact (flags_kept plainService rfl (run_of_follow before) 7 there).1 rfl u (run_of_follow after)

/-- Lea's request has read the memo when it is reported. -/
theorem quarantine_lost : ∃ t u,
    follow plainService.stepWriter (fun _ _ => True) reportedSystem
      [moveLunch, .report false "memos/lunch", .count 1 oneReport 1, .write 1 51] = some t ∧
    follow plainService.stepWriter (fun _ _ => True) t [.write 0 52] = some u ∧
    restores 7 t (.write 0 52) = false ∧ plainService.decidesIn .quarantined 7 t (.write 0 52) = false ∧
    (payloadOf t.db.toState 7).map MemoPayload.quarantined = some true ∧
    (payloadOf u.db.toState 7).map MemoPayload.quarantined = some false :=
  ⟨_, _, rfl, rfl, rfl, rfl, rfl, rfl⟩

end Memos.Api

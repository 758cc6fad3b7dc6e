/-
When a scheduled memo that the review rejects is shown.

The read checks take a scheduled memo for published as soon as its time has come, and the
review is made by the pass of the publisher that comes after it.  A memo that the review
rejects loses its time in that pass and stays a draft.  So it is shown between its time
and that pass, and neither before nor after.
-/
import Memos.Proofs.Api.ScheduledPublish

namespace Memos.Api.Publication

open Store Access Fileserver Runs

/-! ### Passes -/

/-- The time goes on, or the publisher does. -/
def isPass : Event → Bool
  | .updateMemo _ _ _ _ => false
  | _ => true

def reviews (id : Int) (s : Server) (i : Nat) : Bool :=
  match s.system.writers[i]? with
  | some (.publishing nowSec (memo :: _)) => decide (memo.id = id) && isDue nowSec memo
  | _ => false

def HeldBack (id : Int) (s : Server) : Prop :=
  ∃ row, s.system.db.memos.find? id = some row ∧ row.payload.draft = true ∧
    row.payload.publishTs = 0

/-- Somebody who is neither the author nor an administrator reads the memo, or is shown it in
a collection. -/
def ShownToOthers (service : APIV1Service) (id : Int) (s : Server) : Prop :=
  ∃ viewerID viewer row, fetchCurrentUser s.system.db.toState viewerID = .ok viewer ∧
    isSuperUser viewer = false ∧ s.system.db.memos.find? id = some row ∧
    viewer.all (fun viewer => decide (row.creatorID ≠ viewer.id)) = true ∧
    (CanRead service s.system.db s.clock viewerID row.uid ∨
      memoVisibleInCollection s.clock row viewer = true)

/-! ### Rows -/

/-- The memo as it was scheduled, or as the publisher has held it back. -/
structure Awaits (memo row : MemoRow) : Prop where
  id : row.id = memo.id
  content : row.content = memo.content
  payload : row.payload = memo.payload ∨ row.payload = { memo.payload with publishTs := 0 }

section Rows

variable {service : APIV1Service} {db db' : Tables} {memo row : MemoRow}

theorem Awaits.refl (memo : MemoRow) : Awaits memo memo := ⟨rfl, rfl, .inl rfl⟩

theorem Awaits.draft (awaits : Awaits memo row) : row.payload.draft = memo.payload.draft := by
  rcases awaits.payload with same | held
  · rw [same]
  · rw [held]

theorem Awaits.passesReview (awaits : Awaits memo row) (attachments : db'.attachments = db.attachments) :
    service.passesReview db' row = service.passesReview db memo := by
  have poll : row.payload.poll = memo.payload.poll := by
    rcases awaits.payload with same | held
    · rw [same]
    · rw [held]
  unfold APIV1Service.passesReview APIV1Service.reviewScheduledPublication listAttachments
  rw [awaits.content, poll, awaits.id, attachments]

theorem Awaits.published (awaits : Awaits memo row) (rejected : service.passesReview db row = false) :
    service.published db row = { memo.payload with publishTs := 0 } := by
  unfold APIV1Service.published
  rw [if_neg (by rw [rejected]; decide)]
  rcases awaits.payload with same | held
  · rw [same]
  · rw [held]

/-- A draft is shown to others only while it still has its time, and from that time on. -/
theorem Awaits.due (awaits : Awaits memo row) (draft : memo.payload.draft = true) {now : Int}
    (shown : memoIsUnpublished row now = false) :
    memo.payload.publishTs ≤ now ∧ row.payload.publishTs ≠ 0 := by
  unfold memoIsUnpublished at shown
  rw [awaits.draft, draft, Bool.true_and, Bool.or_eq_false_iff, decide_eq_false_iff_not,
    decide_eq_false_iff_not] at shown
  obtain ⟨timed, reached⟩ := shown
  rcases awaits.payload with same | held
  · rw [same] at reached
    exact ⟨Int.not_lt.mp reached, timed⟩
  · rw [held] at timed
    exact absurd rfl timed

theorem updateMemo_payload (validUID : String → Bool) (state : State) (now : Int) (memo : MemoRow)
    (payload : MemoPayload) :
    ∃ state', Store.updateMemo validUID state now (payloadUpdate memo payload) = .ok state' := by
  have free : Keyed.Table.Free MemoRow.schema (payloadUpdate memo payload).apply :=
    ⟨fun _ => rfl, fun _ _ => ⟨rfl, rfl⟩, fun _ => rfl⟩
  let memos := state.memos.modify (fun row => decide (row.id = memo.id)) _ free
  refine ⟨{ state with memos }, ?_⟩
  show (constrained (.Constraint .unique) (state.memos.update (fun row => decide (row.id = memo.id))
    (payloadUpdate memo payload).apply) >>= fun memos => pure { state with memos }) = _
  rw [Keyed.Table.update_of_free _ _ free]
  rfl

end Rows

/-! ### Steps -/

section Steps

variable {service : APIV1Service} {s s' t : Server} {id : Int} {memo row : MemoRow} {e : Event}

def Brings (id : Int) (memo : MemoRow) : Writer → Prop
  | .publishing _ memos => ∀ row ∈ memos, row.id = id → Awaits memo row
  | .ended => True
  | _ => False

theorem Brings.next {writer : Writer} (brings : Brings id memo writer) :
    Brings id memo writer.next := by
  cases writer with
  | publishing nowSec memos =>
      cases memos with
      | nil => trivial
      | cons first rest => exact fun row there => brings row (List.mem_cons_of_mem _ there)
  | _ => trivial

structure Waits (service : APIV1Service) (id : Int) (memo : MemoRow) (s : Server) (row : MemoRow) :
    Prop where
  stored : s.system.db.memos.find? id = some row
  awaits : Awaits memo row
  rejected : service.passesReview s.system.db row = false
  writers : ∀ writer ∈ s.system.writers, Brings id memo writer

theorem afterUpdate_payload (row first : MemoRow) (payload : MemoPayload) :
    (afterUpdate id row (some (first, payloadUpdate first payload))).id = row.id ∧
      (afterUpdate id row (some (first, payloadUpdate first payload))).content = row.content ∧
      (afterUpdate id row (some (first, payloadUpdate first payload))).payload
        = if id = first.id then payload else row.payload := by
  unfold afterUpdate
  dsimp only
  have about : (payloadUpdate first payload).id = first.id := rfl
  rw [about]
  split
  · exact ⟨rfl, rfl, rfl⟩
  · exact ⟨rfl, rfl, rfl⟩

/-- A write of the publisher: what it makes of the row, and that it touches no attachment. -/
theorem write_brought {db db' : Tables} {now : Int} {writer : Writer}
    (brings : Brings id memo writer) (awaits : Awaits memo row)
    (stored : db.memos.find? id = some row) (rejected : service.passesReview db row = false)
    (h : service.writePayload db now writer = .ok db') :
    db'.attachments = db.attachments ∧ ∃ row', db'.memos.find? id = some row' ∧ Awaits memo row' ∧
      (row.payload = { memo.payload with publishTs := 0 } →
        row'.payload = { memo.payload with publishTs := 0 }) ∧
      ∀ nowSec first rest, writer = .publishing nowSec (first :: rest) → first.id = id →
        isDue nowSec first = true → row'.payload = { memo.payload with publishTs := 0 } := by
  obtain ⟨-, -, rows⟩ := writePayload_row h
  obtain ⟨editor, found⟩ := rows id row stored
  cases writer with
  | ended =>
      injection h with h
      rw [← h]
      exact ⟨rfl, row, stored, awaits, fun held => held, fun _ _ _ same => by cases same⟩
  | publishing nowSec memos =>
      have attachments : db'.attachments = db.attachments := by
        unfold APIV1Service.writePayload at h
        dsimp only at h
        split at h
        · injection h with h
          rw [← h]
        · obtain ⟨state, -, rfl⟩ := map_accepted.mp h
          rfl
      refine ⟨attachments, _, found, ?_⟩
      cases memos with
      | nil => exact ⟨⟨awaits.id, awaits.content, awaits.payload⟩, fun held => held,
          fun _ _ _ same => by cases same⟩
      | cons first rest =>
          unfold APIV1Service.nextUpdate
          dsimp only
          by_cases due : isDue nowSec first = true
          · rw [if_pos due]
            obtain ⟨sameId, sameContent, payload⟩ :=
              afterUpdate_payload row first (service.published db first)
            by_cases same : id = first.id
            · have brought := brings first (.head _) same.symm
              have verdict : service.passesReview db first = false := by
                rw [brought.passesReview rfl, ← awaits.passesReview rfl]
                exact rejected
              have held := payload.trans ((if_pos same).trans (brought.published verdict))
              exact ⟨⟨sameId.trans awaits.id, sameContent.trans awaits.content, .inr held⟩,
                fun _ => held, fun _ _ _ _ _ _ => held⟩
            · rw [if_neg same] at payload
              refine ⟨⟨sameId.trans awaits.id, sameContent.trans awaits.content, ?_⟩,
                fun held => payload.trans held, ?_⟩
              · exact awaits.payload.imp payload.trans payload.trans
              · intro _ other _ eq about
                injection eq with _ eq
                injection eq with eq
                exact absurd (eq ▸ about).symm same
          · rw [if_neg due]
            refine ⟨⟨awaits.id, awaits.content, awaits.payload⟩, fun held => held, ?_⟩
            intro nowSec' other _ eq _ due'
            injection eq with now eq
            injection eq with eq
            exact absurd (now ▸ eq ▸ due') due
  | updating authUserID user memo input paths pending => exact brings.elim
  | reporting comment memo creator => exact brings.elim
  | quarantining memo => exact brings.elim
  | restoring memo => exact brings.elim

theorem Waits.add (waits : Waits service id memo s row) {writer : Writer}
    (new : Brings id memo writer) :
    Waits service id memo
      { s with system := { s.system with writers := s.system.writers ++ [writer] } } row where
  stored := waits.stored
  awaits := waits.awaits
  rejected := waits.rejected
  writers := List.forall_mem_append.mpr ⟨waits.writers, List.forall_mem_singleton.mpr new⟩

theorem Waits.set (waits : Waits service id memo s row) (i : Nat) {writer : Writer}
    (new : Brings id memo writer) :
    Waits service id memo { s with system := s.system.setWriter i writer } row where
  stored := waits.stored
  awaits := waits.awaits
  rejected := waits.rejected
  writers := Debts.forall_set waits.writers new

theorem Waits.scan (waits : Waits service id memo s row) :
    Brings id memo (.publishing s.clock (scheduledMemos s.system.db s.clock)) := by
  intro other there same
  have there : other ∈ s.system.db.memos.select _ := (List.mem_insertionSort _).mp there
  have stored := Keyed.Table.find?_eq_some.mpr ⟨(Keyed.Table.mem_select.mp there).1, same⟩
  rw [Option.some.inj (stored.symm.trans waits.stored)]
  exact waits.awaits

/-- **A write** leaves the memo as it was scheduled or as it is held back; and after the write of
a pass that reviews it, it is held back. -/
theorem Waits.write (waits : Waits service id memo s row) {i : Nat} {writer : Writer} {db : Tables}
    (here : s.system.writers[i]? = some writer)
    (written : service.writePayload s.system.db s.clock writer = .ok db) :
    ∃ row', Waits service id memo
        { s with system := { s.system.setWriter i writer.next with db } } row' ∧
      (row.payload = { memo.payload with publishTs := 0 } →
        row'.payload = { memo.payload with publishTs := 0 }) ∧
      (reviews id s i = true → row'.payload = { memo.payload with publishTs := 0 }) := by
  have brings := waits.writers writer (List.mem_of_getElem? here)
  obtain ⟨attachments, row', stored, awaits, still, reviewed⟩ :=
    write_brought brings waits.awaits waits.stored waits.rejected written
  have rejected : service.passesReview db row' = false := by
    rw [awaits.passesReview attachments, ← waits.awaits.passesReview rfl]
    exact waits.rejected
  refine ⟨row', ⟨stored, awaits, rejected, (waits.set i brings.next).writers⟩, still, ?_⟩
  intro review
  unfold reviews at review
  rw [here] at review
  split at review
  · rename_i nowSec first rest is
    simp only [Bool.and_eq_true, decide_eq_true_eq] at review
    exact reviewed nowSec first rest (Option.some.inj is) review.1 review.2
  · cases review

theorem writePayload_reviews {i : Nat} {writer : Writer} (here : s.system.writers[i]? = some writer)
    (review : reviews id s i = true) :
    ∃ db, service.writePayload s.system.db s.clock writer = .ok db := by
  unfold reviews at review
  rw [here] at review
  split at review
  · rename_i nowSec first rest is
    simp only [Bool.and_eq_true, decide_eq_true_eq] at review
    obtain ⟨state, updated⟩ := updateMemo_payload service.validUID s.system.db.toState s.clock first
      (service.published s.system.db first)
    rw [Option.some.inj is]
    refine ⟨{ s.system.db with toState := state }, ?_⟩
    unfold APIV1Service.writePayload APIV1Service.nextUpdate
    dsimp only
    rw [if_pos review.2]
    dsimp only
    rw [updated]
    rfl
  · cases review

/-- **A step** of a pass or of the time. -/
theorem Waits.step (waits : Waits service id memo s row) (pass : isPass e = true)
    (h : step service s e = some s') :
    ∃ row', Waits service id memo s' row' ∧
      (row.payload = { memo.payload with publishTs := 0 } →
        row'.payload = { memo.payload with publishTs := 0 }) ∧
      ∀ i, e = .write i → reviews id s i = true →
        row'.payload = { memo.payload with publishTs := 0 } := by
  cases e with
  | tick seconds =>
      injection h with h
      rw [← h]
      exact ⟨row, ⟨waits.stored, waits.awaits, waits.rejected, waits.writers⟩, fun held => held,
        fun _ other => by cases other⟩
  | updateMemo authUserID revisionForce request later => cases pass
  | publishScheduledMemos =>
      obtain ⟨system, next, rfl⟩ := act_cases h
      injection next with next
      rw [← next]
      exact ⟨row, waits.add waits.scan, fun held => held, fun _ other => by cases other⟩
  | write i =>
      obtain ⟨system, next, rfl⟩ := act_cases h
      unfold APIV1Service.stepWriter at next
      dsimp only at next
      split at next
      · cases next
      · cases next
      · cases next
      · rename_i writer _ _ here
        split at next
        · rename_i db written
          injection next with next
          rw [← next]
          obtain ⟨row', waits', still, reviewed⟩ := waits.write here written
          refine ⟨row', waits', still, ?_⟩
          intro j same
          injection same with same
          rw [← same]
          exact reviewed
        · rename_i refused
          injection next with next
          rw [← next]
          have brings := waits.writers writer (List.mem_of_getElem? here)
          refine ⟨row, waits.set i brings.next, fun held => held, ?_⟩
          intro j same review
          injection same with same
          rw [← same] at review
          obtain ⟨db, written⟩ := writePayload_reviews here review
          rw [written] at refused
          cases refused
  | stop i =>
      obtain ⟨system, next, rfl⟩ := act_cases h
      injection next with next
      rw [← next]
      exact ⟨row, waits.set i trivial, fun held => held, fun _ other => by cases other⟩

/-- **A run** of passes. -/
theorem Waits.run (waits : Waits service id memo s row)
    (run : Run (Publication.step service) (fun _ e => isPass e = true) s t) :
    ∃ row', Waits service id memo t row' ∧
      (row.payload = { memo.payload with publishTs := 0 } →
        row'.payload = { memo.payload with publishTs := 0 }) := by
  refine run.invariant (P := fun t => ∃ row', Waits service id memo t row' ∧
    (row.payload = { memo.payload with publishTs := 0 } →
      row'.payload = { memo.payload with publishTs := 0 })) ⟨row, waits, fun held => held⟩ ?_
  rintro t u e ⟨row', waits', still⟩ pass next
  obtain ⟨row'', waits'', still', -⟩ := waits'.step pass next
  exact ⟨row'', waits'', fun held => still' (still held)⟩

end Steps

/-! ### The result -/

section Readers

variable {service : APIV1Service} {id : Int} {memo row : MemoRow} {s t u : Server}

theorem Waits.heldBack (waits : Waits service id memo t row) (draft : memo.payload.draft = true)
    (scheduled : 0 < memo.payload.publishTs) :
    HeldBack id t ↔ row.payload = { memo.payload with publishTs := 0 } := by
  constructor
  · rintro ⟨other, stored, -, timeless⟩
    have same := Option.some.inj (stored.symm.trans waits.stored)
    rw [same] at timeless
    rcases waits.awaits.payload with same | held
    · rw [same] at timeless
      omega
    · exact held
  · intro held
    refine ⟨row, waits.stored, ?_, ?_⟩
    · rw [held]
      exact draft
    · rw [held]

/-- The read checks take it for published from its time on, until it is held back. -/
theorem Waits.published (waits : Waits service id memo t row) (draft : memo.payload.draft = true)
    (scheduled : 0 < memo.payload.publishTs) :
    memoIsUnpublished row t.clock = false ↔ memo.payload.publishTs ≤ t.clock ∧ ¬ HeldBack id t := by
  rw [waits.heldBack draft scheduled]
  constructor
  · intro shown
    obtain ⟨reached, timed⟩ := waits.awaits.due draft shown
    refine ⟨reached, fun held => timed ?_⟩
    rw [held]
  · rintro ⟨reached, free⟩
    have same := waits.awaits.payload.resolve_right free
    unfold memoIsUnpublished
    rw [same, draft, Bool.true_and, Bool.or_eq_false_iff]
    exact ⟨decide_eq_false (by omega), decide_eq_false (by omega)⟩

/-- Others are shown nothing that is unpublished. -/
theorem published_of_shown (stored : t.system.db.memos.find? id = some row)
    (shown : ShownToOthers service id t) : memoIsUnpublished row t.clock = false := by
  obtain ⟨viewerID, viewer, other, fetched, ordinary, stored', stranger, read⟩ := shown
  cases Option.some.inj (stored'.symm.trans stored)
  rcases read with read | visible
  · have here := (Keyed.Table.find?_eq_some.mp stored).1
    unfold CanRead at read
    rw [checkMemoReadAccess_ok _ _ _ fetched ordinary here] at read
    have open' := read.2.2
    unfold withheld at open'
    simp only [Bool.or_eq_false_iff] at open'
    rw [stranger, Bool.and_true] at open'
    exact open'.1.2
  · unfold memoVisibleInCollection at visible
    rw [ordinary, if_neg Bool.false_ne_true] at visible
    rw [Bool.eq_false_iff]
    intro unpublished
    rw [if_pos unpublished] at visible
    cases viewer with
    | none =>
        split at visible
        · cases visible
        · cases visible
    | some viewer =>
        have stranger : row.creatorID ≠ viewer.id := of_decide_eq_true stranger
        rw [Option.any_some, decide_eq_false stranger] at visible
        split at visible
        · cases visible
        · cases visible

end Readers

/-- **What a review rejects is held back when the review is made.**

Start with no pass on its way, and take a draft that is scheduled for some time and that the
review rejects.  After any run of ticks and of passes of the publisher, in whatever order, the
draft is shown to others only if its time has come and no pass has yet reviewed it.  A pass that
reviews it holds it back, and it stays held back. -/
theorem rejected_held_back (service : APIV1Service) {s t u : Server} {id : Int} {memo : MemoRow}
    (fresh : s.system.writers = []) (stored : s.system.db.memos.find? id = some memo)
    (draft : memo.payload.draft = true) (scheduled : 0 < memo.payload.publishTs)
    (rejected : service.passesReview s.system.db memo = false)
    (run : Run (step service) (fun _ e => isPass e = true) s t)
    (rest : Run (step service) (fun _ e => isPass e = true) t u) :
    (ShownToOthers service id t → memo.payload.publishTs ≤ t.clock ∧ ¬ HeldBack id t) ∧
      (∀ i v, reviews id t i = true → step service t (.write i) = some v → HeldBack id v) ∧
      (HeldBack id t → HeldBack id u ∧ ¬ ShownToOthers service id u) ∧
      ∃ row, t.system.db.memos.find? id = some row ∧
        (memoIsUnpublished row t.clock = false ↔
          memo.payload.publishTs ≤ t.clock ∧ ¬ HeldBack id t) := by
  have start : Waits service id memo s memo := by
    refine ⟨stored, .refl memo, rejected, ?_⟩
    rw [fresh]
    exact List.forall_mem_nil _
  obtain ⟨row, waits, -⟩ := start.run run
  have published := waits.published draft scheduled
  refine ⟨fun shown => published.mp (published_of_shown waits.stored shown), ?_, ?_,
    row, waits.stored, published⟩
  · intro i v review next
    obtain ⟨row', waits', -, reviewed⟩ := waits.step rfl next
    exact (waits'.heldBack draft scheduled).mpr (reviewed i rfl review)
  · intro held
    obtain ⟨row', waits', still⟩ := waits.run rest
    have held' := (waits'.heldBack draft scheduled).mpr
      (still ((waits.heldBack draft scheduled).mp held))
    exact ⟨held', fun shown => ((waits'.published draft scheduled).mp
      (published_of_shown waits'.stored shown)).2 held'⟩

/-! ### A draft that is refused -/

def strictService : APIV1Service :=
  { plainService with validateTextContent := fun _ => .error ⟨.InvalidArgument, "refused"⟩ }

/-- A pass lists the draft when its time has come, and holds it back when it reviews it. -/
theorem rejected_held_back_lunch : ∃ t v,
    follow (step strictService) (fun _ e => isPass e = true) lunchServer
      [.tick 60, .publishScheduledMemos] = some t ∧
    step strictService t (.write 0) = some v ∧ HeldBack 7 v := by
  obtain ⟨t, v, before, review, next⟩ : ∃ t v,
      follow (step strictService) (fun _ e => isPass e = true) lunchServer
        [.tick 60, .publishScheduledMemos] = some t ∧
      reviews 7 t 0 = true ∧ step strictService t (.write 0) = some v :=
    ⟨_, _, rfl, rfl, rfl⟩
  have stored : lunchServer.system.db.memos.find? 7 = some lunch := rfl
  have held := rejected_held_back strictService rfl stored rfl (by decide) rfl
    (run_of_follow before) .refl
  exact ⟨t, v, before, next, held.2.1 0 v review next⟩

/-- Ten seconds after the time, and before the pass, Mia reads the draft. -/
theorem rejected_shown : ∃ t row,
    strictService.passesReview lunchServer.system.db lunch = false ∧
    follow (step strictService) (fun _ e => isPass e = true) lunchServer [.tick 60] = some t ∧
    t.system.db.memos.find? 7 = some row ∧ row.payload.draft = true ∧ row.creatorID = 5 ∧
    strictService.passesReview t.system.db row = false ∧
    CanRead strictService t.system.db t.clock 6 row.uid ∧ ShownToOthers strictService 7 t :=
  ⟨_, lunch, rfl, rfl, rfl, rfl, rfl, rfl, rfl, 6, some (.withDefaults 6 "mia"), lunch, rfl, rfl, rfl,
    rfl, .inl rfl⟩

end Memos.Api.Publication

/-
When the order of a mask matters.

A path of a mask is refused or it is not, whatever the paths before it have done, and
what it writes when it is not refused is a step of a fold.  All these steps commute but
two: `draft` and `publish_time` both write whether a memo is a draft and when it will be
published, and the one that is listed last decides.  They agree in the end only if they
ask for the same.

So an update depends on the set of its paths alone, as long as the mask does not hold
both, and otherwise exactly when both agree.
-/
import Memos.Api.MemoUpdate
import Memos.Lib.Folds
import Memos.Proofs.Store.MemoUpdate

namespace Memos.Api

open Store Access

/-! ### Refusals -/

section Refusals

variable {α β : Type} {code : Code} {message : String} {condition : Bool}

theorem bind_accepted {x : Except Status α} {f : α → Except Status β} {b : β} :
    (x >>= f) = .ok b ↔ ∃ a, x = .ok a ∧ f a = .ok b := by
  cases x with
  | error status => simp [bind, Except.bind]
  | ok a => simp [bind, Except.bind]

theorem pure_accepted {a b : α} : (pure a : Except Status α) = .ok b ↔ a = b := by
  simp [pure, Except.pure]

theorem refuseIf_accepted {u : Unit} :
    refuseIf condition code message = .ok u ↔ condition = false := by
  unfold refuseIf
  cases condition with
  | true => simp
  | false => simp

theorem orRefuse_accepted {row : Option α} {a : α} :
    orRefuse row code message = .ok a ↔ row = some a := by
  cases row with
  | none => simp [orRefuse]
  | some b => simp [orRefuse]

theorem refused_accepted {x : Except String α} {a : α} :
    refused code message x = .ok a ↔ x = .ok a := by
  cases x with
  | error e => simp [refused]
  | ok b => simp [refused]

theorem written_accepted {operation : String} {x : Except StoreError α} {a : α} :
    written operation x = .ok a ↔ x = .ok a := by
  cases x with
  | error e => simp [written]
  | ok b => simp [written]

theorem map_accepted {x : Except Status α} {f : α → β} {b : β} :
    x.map f = .ok b ↔ ∃ a, x = .ok a ∧ f a = b := by
  cases x with
  | error e => simp [Except.map]
  | ok a => simp [Except.map]

theorem forM_accepted {check : α → Except Status Unit} {list : List α} :
    list.forM check = .ok () ↔ ∀ a ∈ list, check a = .ok () := by
  induction list with
  | nil => simp [List.forM_nil, pure, Except.pure]
  | cons a list ih =>
      show (check a >>= fun _ => list.forM check) = .ok () ↔ _
      rw [bind_accepted, List.forall_mem_cons, ← ih]
      exact ⟨fun ⟨_, head, tail⟩ => ⟨head, tail⟩, fun ⟨head, tail⟩ => ⟨(), head, tail⟩⟩

end Refusals

/-! ### The steps of the loop -/

def overwrite {α : Type} (path field : UpdatePath) (value old : α) : α :=
  if path = field then value else old

section Overwrite

variable {α : Type} (x y field : UpdatePath) (value old : α)

theorem overwrite_comm : overwrite y field value (overwrite x field value old)
    = overwrite x field value (overwrite y field value old) := by
  unfold overwrite
  by_cases first : x = field
  · simp [first]
  · simp [first]

theorem overwrite_idem :
    overwrite x field value (overwrite x field value old) = overwrite x field value old := by
  unfold overwrite
  split
  · rfl
  · rfl

end Overwrite

section Steps

variable (service : APIV1Service) (now : Int) (user : UserRow) (comment : Bool) (input : ProtoMemo)

def APIV1Service.extracted : ExtractedData :=
  (service.extractAll input.content).toOption.getD ⟨[], "", false, false, false, false⟩

def APIV1Service.category : String :=
  (service.normalizeMemoCategory user (input.category.getD "")).toOption.getD ""

/-- What a path makes of the payload, apart from the poll and the publication. -/
def APIV1Service.metadataEffect (payload : MemoPayload) (path : UpdatePath) : MemoPayload :=
  let data := service.extracted input
  { payload with
    title := overwrite path .content data.title payload.title
    hasLink := overwrite path .content data.hasLink payload.hasLink
    hasTaskList := overwrite path .content data.hasTaskList payload.hasTaskList
    hasCode := overwrite path .content data.hasCode payload.hasCode
    hasIncompleteTasks := overwrite path .content data.hasIncompleteTasks payload.hasIncompleteTasks
    tags := overwrite path .content data.tags payload.tags
    location := overwrite path .location input.location payload.location
    category := overwrite path .category (service.category user input) payload.category
    hidden := overwrite path .hidden input.hidden payload.hidden
    anonymous := overwrite path .anonymous input.anonymous payload.anonymous
    adminScript := overwrite path .adminScript input.adminScript payload.adminScript
    hideTime := overwrite path .hideTime input.hideTime payload.hideTime }

/-- What a path makes of the publication. -/
def publicationEffect (payload : MemoPayload) : UpdatePath → MemoPayload
  | .draft => markDraft input.draft payload
  | .publishTime => schedule now input.publishTime payload
  | _ => payload

/-- What a path makes of the payload, apart from the poll. -/
def APIV1Service.payloadEffect (payload : MemoPayload) (path : UpdatePath) : MemoPayload :=
  publicationEffect now input (service.metadataEffect user input payload path) path

def writesPayload : UpdatePath → Bool
  | .content | .location | .category | .hidden | .hideTime | .anonymous | .adminScript | .draft
  | .publishTime => true
  | _ => false

/-- What a path writes besides the payload. -/
def rowEffect (pending : PendingUpdate) : UpdatePath → PendingUpdate
  | .content =>
      { pending with
        nextMemo := { pending.nextMemo with content := input.content }
        update := { pending.update with content := some input.content }
        contentUpdated := true }
  | .pinned => { pending with update := { pending.update with pinned := some input.pinned } }
  | .state =>
      { pending with
        update := { pending.update with rowStatus := some (convertStateToStore input.state) } }
  | .createTime =>
      { pending with
        update := { pending.update with
          createdTs := some ((input.createTime.map Timestamp.Unix).getD 0) } }
  | .updateTime =>
      { pending with
        update := { pending.update with
          updatedTs := some ((input.updateTime.map Timestamp.Unix).getD now) } }
  | .hidden => { pending with update := { pending.update with visibility := some .Public } }
  | .attachments => { pending with attachmentsUpdated := true }
  | .relations => { pending with relationsUpdated := true }
  | _ => pending

def APIV1Service.withPath (pending : PendingUpdate) (path : UpdatePath) : PendingUpdate :=
  if writesPayload path then
    pending.withPayload fun payload => service.payloadEffect now user input payload path
  else pending

def APIV1Service.pollEffect (pending : PendingUpdate) : PendingUpdate :=
  let (nextPoll, calls) := service.pollToStore pending.calls input.poll
  { pending.withPayload (fun payload => { payload with poll := nextPoll }) with
    pollUpdated := pollVotingRulesChanged pending.nextMemo.payload.poll nextPoll, calls }

def APIV1Service.effect (pending : PendingUpdate) : UpdatePath → PendingUpdate
  | .poll => service.pollEffect input pending
  | path => rowEffect now input (service.withPath now user input pending path) path

def APIV1Service.Accepts (path : UpdatePath) : Prop :=
  ∀ pending, service.updatePath now user comment input pending path
    = .ok (service.effect now user input pending path)

theorem accepts_or_refuses_content :
    service.Accepts now user comment input .content ∨
      ∃ status, ∀ pending, service.updatePath now user comment input pending .content
        = .error status := by
  unfold APIV1Service.Accepts APIV1Service.updatePath APIV1Service.updateContent
  dsimp only
  cases service.validateMemoLocalScripts input.content (isSuperUser (some user)) with
  | error status => exact .inr ⟨status, fun _ => rfl⟩
  | ok _ =>
      generalize refuseIf _ _ _ = length
      cases length with
      | error status => exact .inr ⟨status, fun _ => rfl⟩
      | ok _ =>
          cases service.validateTextContent [input.content] with
          | error status => exact .inr ⟨status, fun _ => rfl⟩
          | ok _ =>
              cases parsed : service.extractAll input.content with
              | error e => exact .inr ⟨_, fun _ => rfl⟩
              | ok data =>
                  have named : service.extracted input = data := by
                    rw [APIV1Service.extracted, parsed]
                    rfl
                  refine .inl fun pending => ?_
                  rw [← named]
                  rfl

/-- A path is refused whatever the paths before it have done, or never. -/
theorem accepts_or_refuses (path : UpdatePath) :
    service.Accepts now user comment input path ∨
      ∃ status, ∀ pending, service.updatePath now user comment input pending path
        = .error status := by
  cases path with
  | visibility => exact .inl fun _ => rfl
  | space => exact .inl fun _ => rfl
  | pinned => exact .inl fun _ => rfl
  | state => exact .inl fun _ => rfl
  | updateTime => exact .inl fun _ => rfl
  | displayTime => exact .inr ⟨_, fun _ => rfl⟩
  | location => exact .inl fun _ => rfl
  | hidden => exact .inl fun _ => rfl
  | hideTime => exact .inl fun _ => rfl
  | attachments => exact .inl fun _ => rfl
  | relations => exact .inl fun _ => rfl
  | unrecognised path => exact .inr ⟨_, fun _ => rfl⟩
  | anonymous | draft =>
      cases comment with
      | true => exact .inr ⟨_, fun _ => rfl⟩
      | false => exact .inl fun _ => rfl
  | createTime =>
      cases valid : input.createTime.filter Timestamp.IsValid with
      | none =>
          refine .inr ⟨⟨.InvalidArgument, "create_time is invalid"⟩, fun pending => ?_⟩
          rw [APIV1Service.updatePath, valid]
          rfl
      | some createTime =>
          refine .inl fun pending => ?_
          have given : input.createTime = some createTime :=
            (Option.filter_eq_some_iff.mp valid).1
          rw [APIV1Service.updatePath, valid]
          unfold APIV1Service.effect rowEffect
          dsimp only
          rw [given]
          rfl
  | category =>
      cases normalized : service.normalizeMemoCategory user (input.category.getD "") with
      | error status =>
          refine .inr ⟨status, fun pending => ?_⟩
          rw [APIV1Service.updatePath, normalized]
          rfl
      | ok category =>
          have named : service.category user input = category := by
            rw [APIV1Service.category, normalized]
            rfl
          refine .inl fun pending => ?_
          rw [APIV1Service.updatePath, normalized, ← named]
          rfl
  | adminScript =>
      cases script : validateMemoAdminScript input.adminScript with
      | error status =>
          refine .inr ⟨status, fun pending => ?_⟩
          rw [APIV1Service.updatePath, script]
          rfl
      | ok _ =>
          refine .inl fun pending => ?_
          rw [APIV1Service.updatePath, script]
          rfl
  | publishTime =>
      cases comment with
      | true => exact .inr ⟨_, fun _ => rfl⟩
      | false =>
          cases valid : input.publishTime.any fun t => !t.IsValid with
          | true =>
              refine .inr ⟨⟨.InvalidArgument, "publish_time is invalid"⟩, fun pending => ?_⟩
              rw [APIV1Service.updatePath, valid]
              rfl
          | false =>
              refine .inl fun pending => ?_
              rw [APIV1Service.updatePath, valid]
              rfl
  | poll =>
      cases valid : validatePoll input.poll with
      | error e =>
          refine .inr ⟨⟨.InvalidArgument, "" ++ e⟩, fun pending => ?_⟩
          rw [APIV1Service.updatePath, APIV1Service.updatePoll, valid]
          rfl
      | ok _ =>
          refine .inl fun pending => ?_
          rw [APIV1Service.updatePath, APIV1Service.updatePoll, valid]
          rfl
  | content => exact accepts_or_refuses_content service now user comment input

/-! ### Steps that commute -/

theorem withPayload_withPayload (pending : PendingUpdate) (f g : MemoPayload → MemoPayload) :
    (pending.withPayload f).withPayload g = pending.withPayload fun payload => g (f payload) :=
  rfl

theorem rowEffect_withPayload (pending : PendingUpdate) (f : MemoPayload → MemoPayload)
    (path : UpdatePath) :
    rowEffect now input (pending.withPayload f) path
      = (rowEffect now input pending path).withPayload f := by
  cases path with
  | _ => rfl

theorem rowEffect_comm (pending : PendingUpdate) (x y : UpdatePath) :
    rowEffect now input (rowEffect now input pending x) y
      = rowEffect now input (rowEffect now input pending y) x := by
  unfold rowEffect
  split <;> split <;> rfl

theorem rowEffect_idem (pending : PendingUpdate) (path : UpdatePath) :
    rowEffect now input (rowEffect now input pending path) path
      = rowEffect now input pending path := by
  cases path with
  | _ => rfl

/-- The paths `draft` and `publish_time` ask for the same. -/
def DraftAgrees : Prop :=
  ∀ t, input.publishTime = some t →
    (input.draft = true ∧ now < t.Unix) ∨ (input.draft = false ∧ t.Unix ≤ now ∧ t.Unix = 0)

theorem markDraft_schedule (agrees : DraftAgrees now input) (payload : MemoPayload) :
    markDraft input.draft (schedule now input.publishTime payload)
      = schedule now input.publishTime (markDraft input.draft payload) := by
  cases given : input.publishTime with
  | none =>
      unfold markDraft schedule
      cases input.draft with
      | true => rfl
      | false => rfl
  | some t =>
      unfold markDraft schedule
      rcases agrees t given with ⟨draft, later⟩ | ⟨published, reached, zero⟩
      · simp [draft, later]
      · simp [published, zero, Int.not_lt.mpr (zero ▸ reached)]

def Rivals (x y : UpdatePath) : Prop :=
  (x = .draft ∧ y = .publishTime) ∨ (x = .publishTime ∧ y = .draft)

theorem metadataEffect_comm (payload : MemoPayload) (x y : UpdatePath) :
    service.metadataEffect user input (service.metadataEffect user input payload x) y
      = service.metadataEffect user input (service.metadataEffect user input payload y) x := by
  unfold APIV1Service.metadataEffect
  simp only [overwrite_comm x y]

theorem publicationEffect_comm {x y : UpdatePath} (agrees : Rivals x y → DraftAgrees now input)
    (payload : MemoPayload) :
    publicationEffect now input (publicationEffect now input payload x) y
      = publicationEffect now input (publicationEffect now input payload y) x := by
  by_cases rivals : Rivals x y
  · have both := markDraft_schedule now input (agrees rivals) payload
    rcases rivals with ⟨rfl, rfl⟩ | ⟨rfl, rfl⟩
    · exact both.symm
    · exact both
  · cases x with
    | draft =>
        cases y with
        | publishTime => exact absurd (.inl ⟨rfl, rfl⟩) rivals
        | _ => rfl
    | publishTime =>
        cases y with
        | draft => exact absurd (.inr ⟨rfl, rfl⟩) rivals
        | _ => rfl
    | _ => rfl

/-- What is published when is written apart from everything else. -/
theorem metadataEffect_publicationEffect (payload : MemoPayload) (x y : UpdatePath) :
    service.metadataEffect user input (publicationEffect now input payload x) y
      = publicationEffect now input (service.metadataEffect user input payload y) x := by
  unfold publicationEffect
  split
  · rfl
  · unfold schedule
    cases input.publishTime with
    | none => rfl
    | some t => rfl
  · rfl

theorem payloadEffect_comm {x y : UpdatePath} (agrees : Rivals x y → DraftAgrees now input)
    (payload : MemoPayload) :
    service.payloadEffect now user input (service.payloadEffect now user input payload x) y
      = service.payloadEffect now user input (service.payloadEffect now user input payload y) x := by
  unfold APIV1Service.payloadEffect
  rw [metadataEffect_publicationEffect, metadataEffect_publicationEffect,
    publicationEffect_comm now input agrees, metadataEffect_comm]

theorem payloadEffect_idem (payload : MemoPayload) (path : UpdatePath) :
    service.payloadEffect now user input (service.payloadEffect now user input payload path) path
      = service.payloadEffect now user input payload path := by
  have metadata : ∀ payload, service.metadataEffect user input
      (service.metadataEffect user input payload path) path
        = service.metadataEffect user input payload path := by
    intro payload
    unfold APIV1Service.metadataEffect
    simp only [overwrite_idem]
  have publication : ∀ payload, publicationEffect now input
      (publicationEffect now input payload path) path = publicationEffect now input payload path := by
    intro payload
    cases path with
    | draft =>
        unfold publicationEffect markDraft
        cases input.draft with
        | true => rfl
        | false => rfl
    | publishTime =>
        unfold publicationEffect schedule
        cases input.publishTime with
        | none => rfl
        | some t => rfl
    | _ => rfl
  unfold APIV1Service.payloadEffect
  rw [metadataEffect_publicationEffect, publication, metadata]

theorem payloadEffect_draft (payload : MemoPayload) :
    service.payloadEffect now user input payload .draft = markDraft input.draft payload :=
  rfl

theorem payloadEffect_publishTime (payload : MemoPayload) :
    service.payloadEffect now user input payload .publishTime
      = schedule now input.publishTime payload :=
  rfl

/-- No other path reads or writes the poll. -/
structure LeavesPoll (f : MemoPayload → MemoPayload) : Prop where
  kept : ∀ payload, (f payload).poll = payload.poll
  apart : ∀ payload poll, f { payload with poll } = { f payload with poll }

theorem leavesPoll_payloadEffect (path : UpdatePath) :
    LeavesPoll fun payload => service.payloadEffect now user input payload path := by
  have metadata : LeavesPoll fun payload => service.metadataEffect user input payload path :=
    ⟨fun _ => rfl, fun _ _ => rfl⟩
  have publication : LeavesPoll fun payload => publicationEffect now input payload path := by
    cases path with
    | draft => exact ⟨fun _ => rfl, fun _ _ => rfl⟩
    | publishTime =>
        unfold publicationEffect schedule
        cases input.publishTime with
        | none => exact ⟨fun _ => rfl, fun _ _ => rfl⟩
        | some t => exact ⟨fun _ => rfl, fun _ _ => rfl⟩
    | _ => exact ⟨fun _ => rfl, fun _ _ => rfl⟩
  refine ⟨fun payload => ?_, fun payload poll => ?_⟩
  · exact (publication.kept _).trans (metadata.kept payload)
  · exact (congrArg (fun payload => publicationEffect now input payload path)
      (metadata.apart payload poll)).trans (publication.apart _ poll)

theorem pollEffect_withPayload (pending : PendingUpdate) {f : MemoPayload → MemoPayload}
    (leaves : LeavesPoll f) : service.pollEffect input (pending.withPayload f)
      = (service.pollEffect input pending).withPayload f := by
  unfold APIV1Service.pollEffect PendingUpdate.withPayload
  dsimp only
  rw [leaves.kept,
    leaves.apart pending.nextMemo.payload (service.pollToStore pending.calls input.poll).1]

theorem withPath_comm {x y : UpdatePath} (agrees : Rivals x y → DraftAgrees now input)
    (pending : PendingUpdate) :
    service.withPath now user input (service.withPath now user input pending x) y
      = service.withPath now user input (service.withPath now user input pending y) x := by
  unfold APIV1Service.withPath
  by_cases first : writesPayload x = true
  · by_cases second : writesPayload y = true
    · rw [if_pos first, if_pos second, if_pos second, if_pos first, withPayload_withPayload,
        withPayload_withPayload]
      exact congrArg pending.withPayload
        (funext fun payload => payloadEffect_comm service now user input agrees payload)
    · rw [if_neg second, if_neg second]
  · rw [if_neg first, if_neg first]

theorem withPath_idem (pending : PendingUpdate) (path : UpdatePath) :
    service.withPath now user input (service.withPath now user input pending path) path
      = service.withPath now user input pending path := by
  unfold APIV1Service.withPath
  split
  · rw [withPayload_withPayload]
    exact congrArg pending.withPayload
      (funext fun payload => payloadEffect_idem service now user input payload path)
  · rfl

theorem rowEffect_withPath (pending : PendingUpdate) (x y : UpdatePath) :
    rowEffect now input (service.withPath now user input pending x) y
      = service.withPath now user input (rowEffect now input pending y) x := by
  unfold APIV1Service.withPath
  split
  · exact rowEffect_withPayload now input pending _ y
  · rfl

def APIV1Service.step (pending : PendingUpdate) (path : UpdatePath) : PendingUpdate :=
  rowEffect now input (service.withPath now user input pending path) path

theorem effect_of_ne_poll {path : UpdatePath} (other : path ≠ .poll) (pending : PendingUpdate) :
    service.effect now user input pending path = service.step now user input pending path := by
  cases path with
  | poll => exact absurd rfl other
  | _ => rfl

theorem step_comm {x y : UpdatePath} (agrees : Rivals x y → DraftAgrees now input)
    (pending : PendingUpdate) :
    service.step now user input (service.step now user input pending x) y
      = service.step now user input (service.step now user input pending y) x := by
  unfold APIV1Service.step
  rw [← rowEffect_withPath, ← rowEffect_withPath, withPath_comm service now user input agrees,
    rowEffect_comm]

theorem step_idem (pending : PendingUpdate) (path : UpdatePath) :
    service.step now user input (service.step now user input pending path) path
      = service.step now user input pending path := by
  unfold APIV1Service.step
  rw [← rowEffect_withPath, withPath_idem, rowEffect_idem]

theorem pollEffect_step (pending : PendingUpdate) (path : UpdatePath) :
    service.pollEffect input (service.step now user input pending path)
      = service.step now user input (service.pollEffect input pending) path := by
  have row : ∀ pending, service.pollEffect input (rowEffect now input pending path)
      = rowEffect now input (service.pollEffect input pending) path := by
    intro pending
    cases path with
    | _ => rfl
  unfold APIV1Service.step
  rw [row]
  refine congrArg (fun pending => rowEffect now input pending path) ?_
  unfold APIV1Service.withPath
  split
  · exact pollEffect_withPayload service input pending
      (leavesPoll_payloadEffect service now user input path)
  · rfl

theorem effect_comm {x y : UpdatePath} (agrees : Rivals x y → DraftAgrees now input)
    (pending : PendingUpdate) :
    service.effect now user input (service.effect now user input pending x) y
      = service.effect now user input (service.effect now user input pending y) x := by
  by_cases first : x = .poll
  · by_cases second : y = .poll
    · rw [first, second]
    · rw [effect_of_ne_poll service now user input second,
        effect_of_ne_poll service now user input second, first]
      exact (pollEffect_step service now user input pending y).symm
  · rw [effect_of_ne_poll service now user input first,
      effect_of_ne_poll service now user input first]
    by_cases second : y = .poll
    · rw [second]
      exact pollEffect_step service now user input pending x
    · rw [effect_of_ne_poll service now user input second,
        effect_of_ne_poll service now user input second]
      exact step_comm service now user input agrees pending

/-! ### Masks -/

/-- The masks list the same paths, and `poll` equally often: a second `poll` asks whether the
voting rules differ from those of the first. -/
structure SameMask (paths paths' : List UpdatePath) : Prop where
  mem : ∀ path, path ∈ paths ↔ path ∈ paths'
  polls : paths.count .poll = paths'.count .poll

theorem SameMask.of_perm {paths paths' : List UpdatePath} (h : paths.Perm paths') :
    SameMask paths paths' :=
  ⟨fun _ => h.mem_iff, h.count_eq _⟩

theorem SameMask.contains {paths paths' : List UpdatePath} (h : SameMask paths paths')
    (path : UpdatePath) : paths.contains path = paths'.contains path := by
  rw [Bool.eq_iff_iff, List.contains_iff_mem, List.contains_iff_mem]
  exact h.mem path

theorem SameMask.all {paths paths' : List UpdatePath} (h : SameMask paths paths')
    (p : UpdatePath → Bool) : paths.all p = paths'.all p := by
  rw [Bool.eq_iff_iff, List.all_eq_true, List.all_eq_true]
  exact forall_congr' fun path => imp_congr_left (h.mem path)

/-- If the mask holds both rivals, they ask for the same. -/
def MaskAgrees (paths : List UpdatePath) : Prop :=
  .draft ∈ paths → .publishTime ∈ paths → DraftAgrees now input

theorem updatePaths_accepted {paths : List UpdatePath} {pending pending' : PendingUpdate} :
    service.updatePaths now user comment input paths pending = .ok pending' ↔
      (∀ path ∈ paths, service.Accepts now user comment input path) ∧
        paths.foldl (service.effect now user input) pending = pending' := by
  unfold APIV1Service.updatePaths
  induction paths generalizing pending with
  | nil =>
      rw [List.foldlM_nil, pure_accepted]
      simp
  | cons path paths ih =>
      rw [List.foldlM_cons, bind_accepted, List.forall_mem_cons]
      rcases accepts_or_refuses service now user comment input path with accepts | ⟨status, refuses⟩
      · rw [accepts pending]
        constructor
        · rintro ⟨next, first, rest⟩
          injection first with first
          rw [← first, ih] at rest
          exact ⟨⟨accepts, rest.1⟩, rest.2⟩
        · rintro ⟨⟨-, others⟩, rest⟩
          exact ⟨_, rfl, ih.mpr ⟨others, rest⟩⟩
      · rw [refuses pending]
        constructor
        · rintro ⟨next, first, -⟩
          cases first
        · rintro ⟨⟨accepts, -⟩, -⟩
          have both := (accepts pending).symm.trans (refuses pending)
          cases both

theorem commuting_effect {paths : List UpdatePath} (agrees : MaskAgrees now input paths) :
    Folds.Commuting (service.effect now user input) paths := by
  intro x hx y hy pending
  refine effect_comm service now user input (fun rivals => ?_) pending
  rcases rivals with ⟨rfl, rfl⟩ | ⟨rfl, rfl⟩
  · exact agrees hx hy
  · exact agrees hy hx

theorem idempotent_effect (paths : List UpdatePath) :
    Folds.Idempotent (service.effect now user input) (paths.filter (· ≠ .poll)) := by
  intro path hpath pending
  have other : path ≠ .poll := of_decide_eq_true (List.mem_filter.mp hpath).2
  rw [effect_of_ne_poll service now user input other,
    effect_of_ne_poll service now user input other, step_idem]

theorem foldl_effect_eq {paths paths' : List UpdatePath} (agrees : MaskAgrees now input paths)
    (same : SameMask paths paths') (pending : PendingUpdate) :
    paths.foldl (service.effect now user input) pending
      = paths'.foldl (service.effect now user input) pending :=
  Folds.foldl_eq_of_count_eq .poll (commuting_effect service now user input agrees)
    (idempotent_effect service now user input paths) same.mem same.polls pending

end Steps

/-! ### Requests -/

section Requests

variable {service : APIV1Service} {db db' : Tables} {now authUserID : Int} {revisionForce : Bool}
  {message : Option ProtoMemo} {paths paths' : List UpdatePath}

/-- What a request establishes before its mask is looked at. -/
structure Admitted (service : APIV1Service) (db : Tables) (authUserID : Int)
    (message : Option ProtoMemo) (input : ProtoMemo) (memo : MemoRow) (user : UserRow) : Prop where
  given : message = some input
  found : ∃ memoUID, service.ExtractMemoUIDFromName input.name = .ok memoUID ∧
    getMemo db.toState memoUID = some memo
  active : fetchCurrentUser db.toState authUserID = .ok (some user)
  manager : canManageMemo db.toState user memo = true

theorem Admitted.unique {input input' : ProtoMemo} {memo memo' : MemoRow} {user user' : UserRow}
    (h : Admitted service db authUserID message input memo user)
    (h' : Admitted service db authUserID message input' memo' user') :
    input' = input ∧ memo' = memo ∧ user' = user := by
  have same_input : input' = input := Option.some.inj (h'.given.symm.trans h.given)
  obtain ⟨memoUID, named, found⟩ := h.found
  obtain ⟨memoUID', named', found'⟩ := h'.found
  rw [same_input, named] at named'
  injection named' with named'
  rw [← named', found] at found'
  have same_user := h'.active.symm.trans h.active
  injection same_user with same_user
  exact ⟨same_input, (Option.some.inj found').symm, Option.some.inj same_user⟩

/-- What the mask makes of the memo, before it is settled. -/
def APIV1Service.masked (service : APIV1Service) (now : Int) (user : UserRow) (input : ProtoMemo)
    (paths : List UpdatePath) (update : UpdateMemo) (memo : MemoRow) : PendingUpdate :=
  paths.foldl (service.effect now user input) { update, nextMemo := memo }

/-- What a request that is not refused has gone through. -/
structure Committed (service : APIV1Service) (db : Tables) (now authUserID : Int)
    (revisionForce : Bool) (paths : List UpdatePath) (input : ProtoMemo) (memo : MemoRow)
    (user : UserRow) (update : UpdateMemo) (db' : Tables) : Prop where
  nonempty : paths ≠ []
  placed : service.placeUpdate db.toState user memo input paths revisionForce = .ok update
  administrator : ∀ path ∈ paths, checkAdministratorPath user input path = .ok ()
  accepts : ∀ path ∈ paths, service.Accepts now user (isComment db memo) input path
  committed : service.commitUpdate db now authUserID user memo input paths
    ((service.masked now user input paths update memo).settle now) = .ok db'

theorem updateMemo_accepted :
    service.updateMemo db now authUserID revisionForce ⟨message, paths⟩ = .ok db' ↔
      ∃ input memo user update, Admitted service db authUserID message input memo user ∧
        Committed service db now authUserID revisionForce paths input memo user update db' := by
  unfold APIV1Service.updateMemo
  dsimp only
  constructor
  · intro h
    obtain ⟨input, given, h⟩ := bind_accepted.mp h
    obtain ⟨memoUID, named, h⟩ := bind_accepted.mp h
    obtain ⟨_, nonempty, h⟩ := bind_accepted.mp h
    obtain ⟨memo, found, h⟩ := bind_accepted.mp h
    obtain ⟨caller, fetched, h⟩ := bind_accepted.mp h
    obtain ⟨user, active, h⟩ := bind_accepted.mp h
    obtain ⟨_, manager, h⟩ := bind_accepted.mp h
    obtain ⟨update, placed, h⟩ := bind_accepted.mp h
    obtain ⟨_, administrator, h⟩ := bind_accepted.mp h
    obtain ⟨pending, masked, h⟩ := bind_accepted.mp h
    rw [orRefuse_accepted] at given found active
    rw [refuseIf_accepted] at nonempty manager
    obtain ⟨accepts, rfl⟩ := (updatePaths_accepted service now user _ input).mp masked
    have caller : fetchCurrentUser db.toState authUserID = .ok (some user) := by
      rw [← active]
      cases fetch : fetchCurrentUser db.toState authUserID with
      | error e =>
          rw [fetch] at fetched
          cases fetched
      | ok viewer =>
          rw [fetch] at fetched
          injection fetched with fetched
          rw [fetched]
    refine ⟨input, memo, user, update, ⟨given, ⟨memoUID, refused_accepted.mp named, found⟩, caller,
      ?_⟩, ⟨?_, placed, forM_accepted.mp administrator, accepts, h⟩⟩
    · rw [Bool.not_eq_false'] at manager
      exact manager
    · rintro rfl
      cases nonempty
  · rintro ⟨input, memo, user, update, ⟨given, ⟨memoUID, named, found⟩, fetched, manager⟩,
      ⟨nonempty, placed, administrator, accepts, committed⟩⟩
    refine bind_accepted.mpr ⟨input, orRefuse_accepted.mpr given, ?_⟩
    refine bind_accepted.mpr ⟨memoUID, refused_accepted.mpr named, ?_⟩
    refine bind_accepted.mpr ⟨(), refuseIf_accepted.mpr ?_, ?_⟩
    · rw [List.isEmpty_eq_false_iff]
      exact nonempty
    refine bind_accepted.mpr ⟨memo, orRefuse_accepted.mpr found, ?_⟩
    refine bind_accepted.mpr ⟨some user, by rw [fetched]; rfl, ?_⟩
    refine bind_accepted.mpr ⟨user, rfl, ?_⟩
    refine bind_accepted.mpr ⟨(), refuseIf_accepted.mpr (by rw [manager]; rfl), ?_⟩
    refine bind_accepted.mpr ⟨update, placed, ?_⟩
    refine bind_accepted.mpr ⟨(), forM_accepted.mpr administrator, ?_⟩
    exact bind_accepted.mpr ⟨_, (updatePaths_accepted service now user _ input).mpr ⟨accepts, rfl⟩,
      committed⟩

theorem placeUpdate_congr (same : SameMask paths paths') (state : State) (user : UserRow)
    (memo : MemoRow) (input : ProtoMemo) :
    service.placeUpdate state user memo input paths revisionForce
      = service.placeUpdate state user memo input paths' revisionForce := by
  unfold APIV1Service.placeUpdate APIV1Service.updateSpace updateVisibility
  simp only [same.contains, same.all]

theorem commitUpdate_congr (same : SameMask paths paths') (user : UserRow) (memo : MemoRow)
    (input : ProtoMemo) (pending : PendingUpdate) :
    service.commitUpdate db now authUserID user memo input paths pending
      = service.commitUpdate db now authUserID user memo input paths' pending := by
  unfold APIV1Service.commitUpdate APIV1Service.reviewUpdate
  simp only [same.contains]

/-- The request does the same with every mask that lists the same paths. -/
theorem updateMemo_congr (agrees : ∀ input, message = some input → MaskAgrees now input paths)
    (same : SameMask paths paths')
    (h : service.updateMemo db now authUserID revisionForce ⟨message, paths⟩ = .ok db') :
    service.updateMemo db now authUserID revisionForce ⟨message, paths'⟩ = .ok db' := by
  obtain ⟨input, memo, user, update, admitted, done⟩ := updateMemo_accepted.mp h
  refine updateMemo_accepted.mpr ⟨input, memo, user, update, admitted, ?_⟩
  have masked : service.masked now user input paths update memo
      = service.masked now user input paths' update memo :=
    foldl_effect_eq service now user input (agrees input admitted.given) same _
  refine ⟨?_, ?_, fun path hpath => done.administrator path ((same.mem path).mpr hpath),
    fun path hpath => done.accepts path ((same.mem path).mpr hpath), ?_⟩
  · rintro rfl
    obtain ⟨path, listed⟩ := List.exists_mem_of_ne_nil paths done.nonempty
    exact absurd ((same.mem path).mp listed) List.not_mem_nil
  · rw [← placeUpdate_congr same]
    exact done.placed
  · rw [← commitUpdate_congr same, ← masked]
    exact done.committed

/-! ### What a request writes -/

structure Placed (memo : MemoRow) (input : ProtoMemo) (paths : List UpdatePath)
    (update : UpdateMemo) : Prop where
  id : update.id = memo.id
  uid : update.uid = none
  rowStatus : update.rowStatus = none
  payload : update.payload = none
  audience : paths.contains .visibility = true → ∃ visibility,
    validateUpdateMemoVisibility input.visibility = .ok visibility ∧
      update.visibility = some visibility
  sameAudience : paths.contains .visibility = false → update.visibility = none
  samePlace : paths.contains .space = false → update.spaceID = none ∧ update.clearSpace = false

theorem placed_of_placeUpdate {state : State} {user : UserRow} {memo : MemoRow} {input : ProtoMemo}
    {update : UpdateMemo}
    (h : service.placeUpdate state user memo input paths revisionForce = .ok update) :
    Placed memo input paths update := by
  obtain ⟨_, -, h⟩ := bind_accepted.mp h
  obtain ⟨moved, move, h⟩ := bind_accepted.mp h
  obtain ⟨shown, show', h⟩ := bind_accepted.mp h
  obtain ⟨_, -, h⟩ := bind_accepted.mp h
  obtain ⟨_, -, h⟩ := bind_accepted.mp h
  obtain ⟨_, -, h⟩ := bind_accepted.mp h
  rw [pure_accepted] at h
  have moved_eq : moved = { service.emptyUpdate memo revisionForce with
        spaceID := moved.spaceID, clearSpace := moved.clearSpace } ∧
      (paths.contains .space = false → moved.spaceID = none ∧ moved.clearSpace = false) := by
    unfold APIV1Service.updateSpace at move
    split at move
    · rename_i listed
      refine ⟨?_, fun unlisted => by rw [listed] at unlisted; cases unlisted⟩
      split at move
      · injection move with move
        rw [← move]
      · obtain ⟨target, -, move⟩ := bind_accepted.mp move
        rw [pure_accepted] at move
        rw [← move]
    · injection move with move
      rw [← move]
      exact ⟨rfl, fun _ => ⟨rfl, rfl⟩⟩
  obtain ⟨moved_eq, unmoved⟩ := moved_eq
  have id : moved.id = memo.id := congrArg UpdateMemo.id moved_eq
  have uid : moved.uid = none := congrArg UpdateMemo.uid moved_eq
  have rowStatus : moved.rowStatus = none := congrArg UpdateMemo.rowStatus moved_eq
  have payload : moved.payload = none := congrArg UpdateMemo.payload moved_eq
  unfold updateVisibility at show'
  split at show'
  · rename_i listed
    obtain ⟨visibility, valid, show'⟩ := bind_accepted.mp show'
    rw [pure_accepted] at show'
    rw [← h, ← show']
    refine ⟨id, uid, rowStatus, payload, fun _ => ⟨visibility, valid, rfl⟩, fun unlisted => ?_,
      unmoved⟩
    rw [listed] at unlisted
    cases unlisted
  · rename_i unlisted
    injection show' with show'
    rw [← h, ← show']
    exact ⟨id, uid, rowStatus, payload, fun listed => absurd listed unlisted,
      fun _ => congrArg UpdateMemo.visibility moved_eq, unmoved⟩

theorem masked_invariant {P : PendingUpdate → Prop} {user : UserRow} {input : ProtoMemo}
    {update : UpdateMemo} {memo : MemoRow}
    (step : ∀ pending, ∀ path ∈ paths, P pending → P (service.effect now user input pending path))
    (start : P { update, nextMemo := memo }) :
    P (service.masked now user input paths update memo) :=
  List.foldlRecOn paths _ start fun pending h path hpath => step pending path hpath h

/-- The mask is about the memo of the request, whose name and place it leaves alone. -/
theorem effect_place (user : UserRow) (input : ProtoMemo) (pending : PendingUpdate)
    (path : UpdatePath) :
    (service.effect now user input pending path).update.id = pending.update.id ∧
      (service.effect now user input pending path).update.uid = pending.update.uid ∧
      (service.effect now user input pending path).update.spaceID = pending.update.spaceID ∧
      (service.effect now user input pending path).update.clearSpace = pending.update.clearSpace := by
  cases path with
  | _ => exact ⟨rfl, rfl, rfl, rfl⟩

theorem settle_place (pending : PendingUpdate) :
    (pending.settle now).update.id = pending.update.id ∧
      (pending.settle now).update.uid = pending.update.uid ∧
      (pending.settle now).update.spaceID = pending.update.spaceID ∧
      (pending.settle now).update.clearSpace = pending.update.clearSpace := by
  unfold PendingUpdate.settle
  dsimp only
  split <;> split <;> exact ⟨rfl, rfl, rfl, rfl⟩

/-- So are all paths of a mask, and what follows them. -/
theorem settled_place {settledAt : Int} {user : UserRow} {input : ProtoMemo} {update : UpdateMemo}
    {memo : MemoRow} :
    ((service.masked now user input paths update memo).settle settledAt).update.id = update.id ∧
      ((service.masked now user input paths update memo).settle settledAt).update.uid = update.uid ∧
      ((service.masked now user input paths update memo).settle settledAt).update.spaceID
        = update.spaceID ∧
      ((service.masked now user input paths update memo).settle settledAt).update.clearSpace
        = update.clearSpace := by
  obtain ⟨id, uid, spaceID, clearSpace⟩ :=
    settle_place (service.masked now user input paths update memo)
  rw [id, uid, spaceID, clearSpace]
  refine masked_invariant (P := fun pending => pending.update.id = update.id ∧
    pending.update.uid = update.uid ∧ pending.update.spaceID = update.spaceID ∧
    pending.update.clearSpace = update.clearSpace) ?_ ⟨rfl, rfl, rfl, rfl⟩
  intro pending path _ same
  obtain ⟨id, uid, spaceID, clearSpace⟩ := effect_place user input pending path
  exact ⟨id.trans same.1, uid.trans same.2.1, spaceID.trans same.2.2.1,
    clearSpace.trans same.2.2.2⟩

theorem mem_of_getMemo {state : State} {uid : String} {memo : MemoRow}
    (h : getMemo state uid = some memo) : memo ∈ state.memos ∧ memo.deletedTs = none ∧
      memo.uid = uid := by
  have row := List.mem_of_mem_head? h
  obtain ⟨stored, row⟩ := Keyed.Table.mem_select.mp row
  rw [Bool.and_eq_true, decide_eq_true_eq, decide_eq_true_eq] at row
  exact ⟨stored, row⟩

/-- What a request hands to the store is its update, under a policy. -/
theorem applyMemoUpdate_of_commitUpdate {user : UserRow} {memo : MemoRow} {input : ProtoMemo}
    {pending : PendingUpdate}
    (h : service.commitUpdate db now authUserID user memo input paths pending = .ok db') :
    ∃ policy, applyMemoUpdate db.toState now { pending.update with policy } = .ok db'.toState := by
  obtain ⟨preparedAttachments, -, h⟩ := bind_accepted.mp h
  obtain ⟨preparedRelations, -, h⟩ := bind_accepted.mp h
  obtain ⟨requiredAttachmentIDs, -, h⟩ := bind_accepted.mp h
  obtain ⟨_, -, h⟩ := bind_accepted.mp h
  obtain ⟨tables, write, h⟩ := bind_accepted.mp h
  rw [pure_accepted] at h
  have kept : db'.toState = tables.toState := by
    rw [← h]
    split
    · rfl
    · rfl
  rw [kept]
  split at write
  · obtain ⟨_, -, write⟩ := bind_accepted.mp write
    obtain ⟨_, -, write⟩ := bind_accepted.mp write
    exact ⟨_, ((mutationUpdates rfl rfl (written_accepted.mp write)).state _ rfl).2⟩
  · obtain ⟨state, update, rfl⟩ := map_accepted.mp write
    exact ⟨_, applyMemoUpdate_of_updateMemo (written_accepted.mp update)⟩

theorem content_of_commitUpdate {user : UserRow} {memo : MemoRow} {input : ProtoMemo}
    {pending : PendingUpdate}
    (compares : (pending.contentUpdated || pending.attachmentsUpdated || pending.relationsUpdated)
      = true)
    (h : service.commitUpdate db now authUserID user memo input paths pending = .ok db') :
    ∃ stored, db.memos.find? memo.id = some stored ∧ stored.content = memo.content := by
  obtain ⟨preparedAttachments, -, h⟩ := bind_accepted.mp h
  obtain ⟨preparedRelations, -, h⟩ := bind_accepted.mp h
  obtain ⟨requiredAttachmentIDs, -, h⟩ := bind_accepted.mp h
  obtain ⟨_, -, h⟩ := bind_accepted.mp h
  obtain ⟨tables, write, -⟩ := bind_accepted.mp h
  rw [if_pos compares] at write
  obtain ⟨_, -, write⟩ := bind_accepted.mp write
  obtain ⟨_, -, write⟩ := bind_accepted.mp write
  exact (mutationUpdates rfl rfl (written_accepted.mp write)).content

theorem commitUpdate_writes {user : UserRow} {memo : MemoRow} {input : ProtoMemo}
    {pending : PendingUpdate} (stored : memo ∈ db.memos) (id : memo.id = pending.update.id)
    (h : service.commitUpdate db now authUserID user memo input paths pending = .ok db') :
    Writes pending.update memo db.toState db'.toState := by
  obtain ⟨policy, write⟩ := applyMemoUpdate_of_commitUpdate h
  have writes : Writes { pending.update with policy } memo db.toState db'.toState :=
    applyMemoUpdate_writes stored id write
  exact ⟨writes.tables, writes.anonymous, writes.row⟩

theorem Committed.writes {input : ProtoMemo} {memo : MemoRow} {user : UserRow} {update : UpdateMemo}
    (admitted : Admitted service db authUserID message input memo user)
    (h : Committed service db now authUserID revisionForce paths input memo user update db') :
    Writes ((service.masked now user input paths update memo).settle now).update memo db.toState
      db'.toState := by
  obtain ⟨memoUID, -, found⟩ := admitted.found
  refine commitUpdate_writes (mem_of_getMemo found).1 ?_ h.committed
  rw [settled_place.1]
  exact (placed_of_placeUpdate h.placed).id.symm

/-! ### Rivals in a mask -/

/-- What is left of a payload when the update is settled. -/
def settlePayload (now : Int) (payload : MemoPayload) : MemoPayload :=
  if payload.draft && decide (0 < payload.publishTs) && decide (payload.publishTs ≤ now) then
    { payload with publishTs := 0 }
  else payload

theorem settle_payload {pending : PendingUpdate}
    (shared : pending.update.payload = some pending.nextMemo.payload) :
    (pending.settle now).update.payload = some (settlePayload now pending.nextMemo.payload) := by
  unfold PendingUpdate.settle settlePayload
  dsimp only
  split
  · split
    · rfl
    · exact shared
  · split
    · rfl
    · exact shared

theorem draft_settlePayload (payload : MemoPayload) :
    (settlePayload now payload).draft = payload.draft := by
  unfold settlePayload
  split
  · rfl
  · rfl

theorem settlePayload_of_published {payload : MemoPayload} (published : payload.draft = false) :
    settlePayload now payload = payload := by
  unfold settlePayload
  rw [published]
  rfl

/-- The two orders leave the same behind only if both paths ask for the same. -/
theorem draftAgrees_of_settled {input : ProtoMemo} {payload : MemoPayload}
    (same : settlePayload now (schedule now input.publishTime (markDraft input.draft payload))
      = settlePayload now (markDraft input.draft (schedule now input.publishTime payload))) :
    DraftAgrees now input := by
  intro t given
  rw [given] at same
  have asked : decide (now < t.Unix) = input.draft := by
    have draft := congrArg MemoPayload.draft same
    rw [draft_settlePayload, draft_settlePayload] at draft
    exact draft
  cases draft : input.draft with
  | true =>
      rw [draft, decide_eq_true_eq] at asked
      exact .inl ⟨rfl, asked⟩
  | false =>
      have reached : t.Unix ≤ now := by
        rw [draft, decide_eq_false_iff_not, Int.not_lt] at asked
        exact asked
      rw [settlePayload_of_published (asked.trans draft),
        settlePayload_of_published (by exact draft)] at same
      have publishTs : t.Unix = if input.draft then t.Unix else 0 :=
        congrArg MemoPayload.publishTs same
      rw [draft] at publishTs
      exact .inr ⟨rfl, reached, publishTs⟩

/-- The mask with the two rivals moved to its end. -/
def rivalsLast (paths : List UpdatePath) (first second : UpdatePath) : List UpdatePath :=
  paths.filter (fun path => path ≠ .draft ∧ path ≠ .publishTime) ++ [first, second]

theorem sameMask_rivalsLast (draft : .draft ∈ paths) (publishTime : .publishTime ∈ paths)
    {first second : UpdatePath} (rivals : Rivals first second) :
    SameMask paths (rivalsLast paths first second) := by
  unfold rivalsLast
  refine ⟨fun path => ?_, ?_⟩
  · rw [List.mem_append, List.mem_filter, List.mem_pair, decide_eq_true_eq]
    constructor
    · intro listed
      rcases rivals with ⟨rfl, rfl⟩ | ⟨rfl, rfl⟩
      · tauto
      · tauto
    · rintro (⟨listed, -⟩ | listed)
      · exact listed
      · rcases rivals with ⟨rfl, rfl⟩ | ⟨rfl, rfl⟩
        · rcases listed with rfl | rfl
          · exact draft
          · exact publishTime
        · rcases listed with rfl | rfl
          · exact publishTime
          · exact draft
  · rw [List.count_append, List.count_filter (by decide)]
    rcases rivals with ⟨rfl, rfl⟩ | ⟨rfl, rfl⟩
    · rfl
    · rfl

/-- The payload a request writes whose mask ends with the rivals. -/
theorem payload_of_rivalsLast {first second : UpdatePath} (rivals : Rivals first second)
    (h : service.updateMemo db now authUserID revisionForce
      ⟨message, rivalsLast paths first second⟩ = .ok db')
    {input : ProtoMemo} {memo : MemoRow} {user : UserRow}
    (admitted : Admitted service db authUserID message input memo user) {update : UpdateMemo}
    (placed : service.placeUpdate db.toState user memo input
      (rivalsLast paths first second) revisionForce = .ok update) :
    ∃ row ∈ db'.memos, row.id = memo.id ∧ row.payload = settlePayload now
      (service.payloadEffect now user input (service.payloadEffect now user input
        (service.masked now user input (paths.filter fun path =>
          path ≠ .draft ∧ path ≠ .publishTime) update memo).nextMemo.payload first) second) := by
  obtain ⟨input', memo', user', update', admitted', done⟩ := updateMemo_accepted.mp h
  obtain ⟨rfl, rfl, rfl⟩ := admitted.unique admitted'
  have same_update : update' = update := Except.ok.inj (done.placed.symm.trans placed)
  rw [same_update] at done
  have last : service.masked now user' input' (rivalsLast paths first second) update memo'
      = service.effect now user' input' (service.effect now user' input'
        (service.masked now user' input' (paths.filter fun path =>
          path ≠ .draft ∧ path ≠ .publishTime) update memo') first) second := by
    unfold APIV1Service.masked rivalsLast
    rw [List.foldl_append]
    rfl
  obtain ⟨-, -, editor, row⟩ := done.writes admitted
  rw [last] at row
  refine ⟨_, row, rfl, ?_⟩
  generalize service.masked now user' input' _ update memo' = pending
  have both : service.effect now user' input' (service.effect now user' input' pending first) second
      = pending.withPayload fun payload => service.payloadEffect now user' input'
        (service.payloadEffect now user' input' payload first) second := by
    rcases rivals with ⟨rfl, rfl⟩ | ⟨rfl, rfl⟩
    · rfl
    · rfl
  rw [both]
  show (PendingUpdate.settle now _).update.payload.getD memo'.payload = _
  rw [settle_payload (by exact rfl)]
  rfl

/-- Where the rivals do not agree, one of the two orders is refused, or they differ. -/
theorem maskAgrees_of_same (h : service.updateMemo db now authUserID revisionForce ⟨message, paths⟩
      = .ok db') (same : ∀ paths', SameMask paths paths' →
        service.updateMemo db now authUserID revisionForce ⟨message, paths'⟩ = .ok db')
    {input : ProtoMemo} (given : message = some input) : MaskAgrees now input paths := by
  intro draft publishTime
  obtain ⟨input', memo, user, update, admitted, done⟩ := updateMemo_accepted.mp h
  obtain rfl : input' = input := Option.some.inj (admitted.given.symm.trans given)
  have masks : ∀ first second, Rivals first second →
      SameMask paths (rivalsLast paths first second) := fun _ _ =>
    sameMask_rivalsLast draft publishTime
  have result : ∀ first second, Rivals first second → _ := fun first second rivals =>
    payload_of_rivalsLast rivals (same _ (masks first second rivals)) admitted
      ((placeUpdate_congr (masks first second rivals) _ _ _ _).symm.trans done.placed)
  obtain ⟨row, stored, id, payload⟩ := result .draft .publishTime (.inl ⟨rfl, rfl⟩)
  obtain ⟨row', stored', id', payload'⟩ := result .publishTime .draft (.inr ⟨rfl, rfl⟩)
  have same_row : row' = row := Keyed.Table.eq_of_key stored' stored (id'.trans id.symm)
  rw [same_row, payload, payloadEffect_draft, payloadEffect_publishTime,
    payloadEffect_publishTime, payloadEffect_draft] at payload'
  exact draftAgrees_of_settled payload'

end Requests

/-! ### The result -/

def APIV1Service.tablesAfter (service : APIV1Service) (db : Tables) (now authUserID : Int)
    (revisionForce : Bool) (request : UpdateMemoRequest) : Tables :=
  (service.updateMemo db now authUserID revisionForce request).toOption.getD db

/-- **When the order of a mask does not matter.**

If the mask does not hold both `draft` and `publish_time`, or if they ask for the same, the
request leaves the same database behind in whatever order the mask lists its paths, and
however often.  And for a request that is not refused this is the only way: if every order
does the same, the two paths agree. -/
theorem mask_order_iff (service : APIV1Service) (db : Tables) (now authUserID : Int)
    (revisionForce : Bool) (message : Option ProtoMemo) (paths : List UpdatePath) :
    ((∀ input, message = some input → MaskAgrees now input paths) →
      ∀ paths', SameMask paths paths' →
        service.tablesAfter db now authUserID revisionForce ⟨message, paths'⟩
          = service.tablesAfter db now authUserID revisionForce ⟨message, paths⟩) ∧
    ∀ db', service.updateMemo db now authUserID revisionForce ⟨message, paths⟩ = .ok db' →
      ((∀ paths', SameMask paths paths' →
          service.updateMemo db now authUserID revisionForce ⟨message, paths'⟩ = .ok db') ↔
        ∀ input, message = some input → MaskAgrees now input paths) := by
  refine ⟨fun agrees paths' same => ?_, fun db' accepted => ⟨fun every input given => ?_,
    fun agrees paths' same => updateMemo_congr agrees same accepted⟩⟩
  · have back : SameMask paths' paths := ⟨fun path => (same.mem path).symm, same.polls.symm⟩
    have agrees' : ∀ input, message = some input → MaskAgrees now input paths' :=
      fun input given draft publishTime =>
        agrees input given ((same.mem _).mpr draft) ((same.mem _).mpr publishTime)
    unfold APIV1Service.tablesAfter
    cases accepted : service.updateMemo db now authUserID revisionForce ⟨message, paths⟩ with
    | ok db' => rw [updateMemo_congr agrees same accepted]
    | error status =>
        cases other : service.updateMemo db now authUserID revisionForce ⟨message, paths'⟩ with
        | ok db' =>
            have both := (updateMemo_congr agrees' back other).symm.trans accepted
            cases both
        | error status' => rfl
  · exact maskAgrees_of_same accepted every given

/-! ### A memo for later -/

def plainService : APIV1Service where
  library :=
    { letters := { toLower := id, zeroWidth := fun _ h => h }
      unmarshalCategories := fun _ => .ok [] }
  quote := id
  newString _ := "option"
  validUID _ := true
  readable _ := true
  importHash := id
  memoCategoriesJson := ""
  contentLengthLimit := 8192
  memoRevisionLimit := none
  extractAll _ := .ok ⟨[], "", false, false, false, false⟩
  validateMemoLocalScripts _ _ := .ok ()
  validateTextContent _ := .ok ()
  reviewMemoImages _ _ _ := .ok ()
  prepareMemoAttachments _ _ _ _ := .ok {}
  resolveMemoAttachmentReferences _ _ := .ok []
  validateAttachmentMotionGroupDeletion _ _ _ := .ok ()

def scheduledLunch (draft : Bool) : ProtoMemo :=
  { name := "memos/lunch", draft, publishTime := some ⟨100, 0⟩ }

theorem mask_order_iff_scheduled : ∃ db',
    plainService.updateMemo pollTables 50 4 false
      ⟨some (scheduledLunch true), [.draft, .publishTime]⟩ = .ok db' ∧
    plainService.updateMemo pollTables 50 4 false
      ⟨some (scheduledLunch true), [.publishTime, .draft]⟩ = .ok db' := by
  refine ⟨_, rfl, ?_⟩
  refine ((mask_order_iff plainService pollTables 50 4 false (some (scheduledLunch true))
    [.draft, .publishTime]).2 _ rfl).mpr ?_ _ (.of_perm (.swap _ _ _))
  rintro input given - -
  injection given with given
  rw [← given]
  rintro t time
  injection time with time
  rw [← time]
  exact .inl ⟨rfl, by decide⟩

/-- In one order the memo is a draft until its time, in the other it is published at once. -/
theorem scheduled_lunch_published : ∃ scheduled published,
    plainService.updateMemo pollTables 50 4 false
      ⟨some (scheduledLunch false), [.draft, .publishTime]⟩ = .ok scheduled ∧
    plainService.updateMemo pollTables 50 4 false
      ⟨some (scheduledLunch false), [.publishTime, .draft]⟩ = .ok published ∧
    (scheduled.memos.find? 7).map (fun memo => (memo.payload.draft, memo.payload.publishTs))
      = some (true, 100) ∧
    (published.memos.find? 7).map (fun memo => (memo.payload.draft, memo.payload.publishTs))
      = some (false, 0) :=
  ⟨_, _, rfl, rfl, rfl, rfl⟩

end Memos.Api

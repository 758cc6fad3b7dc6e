/-
What a request makes of the attachments it lists.

An attachment without a group is a block by itself, a group is one block.  The loop puts
out the blocks in the order in which their first members are requested, each block as a
whole or not at all.  The invariant says which blocks it is done with: those of the
attachments it has passed.

The first attachment gets the newest timestamp, whatever the clock does between them as
long as it does not go back.
-/
import Memos.Api.MemoAttachmentRequest
import Memos.Proofs.Api.MemoUpdate

namespace Memos.Api

open Store Access

/-- What stands together in the result: a group, or an attachment alone. -/
inductive Block where
  | alone (uid : String)
  | group (groupID : String)
deriving DecidableEq

section Blocks

variable (decode : PayloadReader)

def blockOf (a : AttachmentRow) : Block :=
  match groupOf decode a with
  | none => .alone a.uid
  | some groupID => .group groupID

/-- Where the first member of the block is requested. -/
def place (requested : List AttachmentRow) (a : AttachmentRow) : Nat :=
  (requested.map (blockOf decode)).idxOf (blockOf decode a)

def position (requested : List AttachmentRow) (a : AttachmentRow) : Nat :=
  (requested.map AttachmentRow.uid).idxOf a.uid

/-- The order of the result: block by block, and in a block as requested. -/
def InOrder (requested : List AttachmentRow) (a b : AttachmentRow) : Prop :=
  place decode requested a < place decode requested b ∨
    place decode requested a = place decode requested b ∧ position requested a < position requested b

/-- The memo has several members of the group and not all are requested. -/
def PartlyRequested (current requested : List AttachmentRow) (groupID : String) : Prop :=
  2 ≤ (groupMembers decode current groupID).length ∧
    ∃ a ∈ groupMembers decode current groupID, a ∉ requested

def Kept (current requested : List AttachmentRow) (a : AttachmentRow) : Prop :=
  ∀ groupID, groupOf decode a = some groupID → ¬PartlyRequested decode current requested groupID

variable {decode}

theorem blockOf_none {a : AttachmentRow} (h : groupOf decode a = none) :
    blockOf decode a = .alone a.uid := by
  unfold blockOf
  rw [h]

theorem blockOf_some {a : AttachmentRow} {groupID : String} (h : groupOf decode a = some groupID) :
    blockOf decode a = .group groupID := by
  unfold blockOf
  rw [h]

theorem groupOf_of_blockOf {a : AttachmentRow} {groupID : String}
    (h : blockOf decode a = .group groupID) : groupOf decode a = some groupID := by
  cases group : groupOf decode a with
  | none =>
      rw [blockOf_none group] at h
      cases h
  | some other =>
      rw [blockOf_some group, Block.group.injEq] at h
      rw [h]

theorem of_blockOf_alone {a : AttachmentRow} {uid : String} (h : blockOf decode a = .alone uid) :
    groupOf decode a = none ∧ a.uid = uid := by
  cases group : groupOf decode a with
  | none =>
      rw [blockOf_none group, Block.alone.injEq] at h
      exact ⟨rfl, h⟩
  | some other =>
      rw [blockOf_some group] at h
      cases h

theorem mem_groupMembers {attachments : List AttachmentRow} {groupID : String} {a : AttachmentRow} :
    a ∈ groupMembers decode attachments groupID ↔
      a ∈ attachments ∧ groupOf decode a = some groupID := by
  rw [groupMembers, List.mem_filter, decide_eq_true_iff]

/-! ### What the checks of a group say -/

def Distinct (attachments : List AttachmentRow) : Prop :=
  ∀ a ∈ attachments, ∀ b ∈ attachments, a.uid = b.uid → a = b

theorem isMultiMemberMotionGroup_groupMembers (current : List AttachmentRow) (groupID : String) :
    isMultiMemberMotionGroup decode (groupMembers decode current groupID) = true ↔
      2 ≤ (groupMembers decode current groupID).length := by
  unfold isMultiMemberMotionGroup
  by_cases few : (groupMembers decode current groupID).length < 2
  · rw [if_pos few]
    simp only [Bool.false_eq_true, false_iff, Nat.not_le]
    exact few
  · rw [if_neg few, List.all_eq_true]
    refine iff_of_true (fun a mem => ?_) (Nat.not_lt.mp few)
    rw [(mem_groupMembers.mp mem).2]
    rfl

theorem partlyRequested_iff {current requested : List AttachmentRow}
    (distinct : Distinct (current ++ requested)) (groupID : String) :
    (isMultiMemberMotionGroup decode (groupMembers decode current groupID)
        && !allGroupMembersRequested (groupMembers decode current groupID)
          (groupMembers decode requested groupID)) = true ↔
      PartlyRequested decode current requested groupID := by
  rw [Bool.and_eq_true, isMultiMemberMotionGroup_groupMembers, PartlyRequested]
  refine and_congr_right fun several => ?_
  have nonempty : (groupMembers decode current groupID).isEmpty = false := by
    rw [List.isEmpty_eq_false_iff]
    exact List.ne_nil_of_length_pos (by omega)
  unfold allGroupMembersRequested
  rw [nonempty, if_neg Bool.false_ne_true, Bool.not_eq_true', List.all_eq_false]
  refine exists_congr fun a => and_congr_right fun member => ?_
  rw [List.any_eq_true, not_iff_not]
  obtain ⟨there, group⟩ := mem_groupMembers.mp member
  constructor
  · rintro ⟨r, requestedMember, same⟩
    have listed := (mem_groupMembers.mp requestedMember).1
    rw [distinct a (List.mem_append_left _ there) r (List.mem_append_right _ listed)
      (of_decide_eq_true same).symm]
    exact listed
  · intro listed
    exact ⟨a, mem_groupMembers.mpr ⟨listed, group⟩, decide_eq_true rfl⟩

/-! ### The loop -/

/-- What the loop is done with when it has passed some of the requested attachments. -/
structure Done (decode : PayloadReader) (requested before : List AttachmentRow)
    (appendedGroups appendedAttachments : List String) : Prop where
  groups : ∀ groupID, groupID ∈ appendedGroups ↔ .group groupID ∈ before.map (blockOf decode)
  singles : ∀ a ∈ requested, groupOf decode a = none →
    (a.uid ∈ appendedAttachments ↔ .alone a.uid ∈ before.map (blockOf decode))
  members : ∀ a ∈ requested, ∀ groupID, groupOf decode a = some groupID →
    a.uid ∈ appendedAttachments → .group groupID ∈ before.map (blockOf decode)

section Steps

variable {current requested before rest : List AttachmentRow}
variable {appendedGroups appendedAttachments : List String} {x a : AttachmentRow} {groupID : String}

theorem mem_map_snoc {block : Block} :
    block ∈ (before ++ [x]).map (blockOf decode) ↔
      block ∈ before.map (blockOf decode) ∨ block = blockOf decode x := by
  rw [List.map_append, List.mem_append, List.map_singleton, List.mem_singleton]

theorem Done.seen (done : Done decode requested before appendedGroups appendedAttachments)
    (seen : blockOf decode x ∈ before.map (blockOf decode)) :
    Done decode requested (before ++ [x]) appendedGroups appendedAttachments := by
  have same : ∀ block, block ∈ (before ++ [x]).map (blockOf decode) ↔
      block ∈ before.map (blockOf decode) := by
    intro block
    rw [mem_map_snoc, or_iff_left_iff_imp]
    rintro rfl
    exact seen
  exact ⟨fun g => by rw [done.groups, same], fun a mem single => by rw [done.singles a mem single, same],
    fun a mem g group appended => (same _).mpr (done.members a mem g group appended)⟩

theorem Done.single (done : Done decode requested before appendedGroups appendedAttachments)
    (distinct : Distinct requested) (mem : x ∈ requested) (alone : groupOf decode x = none) :
    Done decode requested (before ++ [x]) appendedGroups (x.uid :: appendedAttachments) := by
  constructor
  · intro g
    rw [done.groups, mem_map_snoc, blockOf_none alone]
    simp
  · intro a listed single
    rw [List.mem_cons, done.singles a listed single, mem_map_snoc, blockOf_none alone,
      Block.alone.injEq, or_comm]
  · intro a listed g group appended
    rw [mem_map_snoc]
    rcases List.mem_cons.mp appended with same | appended
    · rw [distinct a listed x mem same, alone] at group
      cases group
    · exact .inl (done.members a listed g group appended)

theorem Done.group (done : Done decode requested before appendedGroups appendedAttachments)
    (distinct : Distinct requested) (group : groupOf decode x = some groupID)
    {members : List AttachmentRow} (of_group : ∀ a ∈ members, a ∈ requested ∧
      groupOf decode a = some groupID) :
    Done decode requested (before ++ [x]) (groupID :: appendedGroups)
      (members.map AttachmentRow.uid ++ appendedAttachments) := by
  have member : ∀ a ∈ requested, a.uid ∈ members.map AttachmentRow.uid →
      groupOf decode a = some groupID := by
    intro a listed appended
    obtain ⟨b, mem, same⟩ := List.mem_map.mp appended
    rw [← distinct b (of_group b mem).1 a listed same]
    exact (of_group b mem).2
  constructor
  · intro g
    rw [List.mem_cons, done.groups, mem_map_snoc, blockOf_some group, Block.group.injEq, or_comm]
  · intro a listed single
    rw [List.mem_append, mem_map_snoc, blockOf_some group, done.singles a listed single]
    constructor
    · rintro (appended | appended)
      · rw [member a listed appended] at single
        cases single
      · exact .inl appended
    · rintro (appended | same)
      · exact .inr appended
      · cases same
  · intro a listed g group' appended
    rw [mem_map_snoc, blockOf_some group]
    rcases List.mem_append.mp appended with appended | appended
    · rw [member a listed appended, Option.some.injEq] at group'
      exact .inr (congrArg Block.group group'.symm)
    · exact .inl (done.members a listed g group' appended)

/-- A block that was not passed begins at or behind what is left. -/
theorem length_le_place (split : requested = before ++ rest)
    (new : blockOf decode a ∉ before.map (blockOf decode)) :
    before.length ≤ place decode requested a := by
  rw [place, split, List.map_append, List.idxOf_append_of_notMem new, List.length_map]
  exact Nat.le_add_right _ _

theorem place_eq_length (split : requested = before ++ x :: rest)
    (new : blockOf decode a ∉ before.map (blockOf decode))
    (same : blockOf decode a = blockOf decode x) : place decode requested a = before.length := by
  rw [place, split, List.map_append, List.idxOf_append_of_notMem new, List.length_map,
    List.map_cons, same, List.idxOf_cons_self, Nat.add_zero]

/-- What the loop puts out from here on. -/
def PutsOut (decode : PayloadReader) (current requested before out : List AttachmentRow) : Prop :=
  (∀ a, a ∈ out ↔ a ∈ requested ∧ Kept decode current requested a ∧
    blockOf decode a ∉ before.map (blockOf decode)) ∧
  out.Pairwise (InOrder decode requested)

theorem PutsOut.append {block out : List AttachmentRow} (split : requested = before ++ x :: rest)
    (new : blockOf decode x ∉ before.map (blockOf decode))
    (mem : ∀ a, a ∈ block ↔ a ∈ requested ∧ Kept decode current requested a ∧
      blockOf decode a = blockOf decode x)
    (ordered : block.Pairwise fun a b => position requested a < position requested b)
    (tail : PutsOut decode current requested (before ++ [x]) out) :
    PutsOut decode current requested before (block ++ out) := by
  have at_place : ∀ a ∈ block, place decode requested a = before.length := by
    intro a ha
    have same := ((mem a).mp ha).2.2
    exact place_eq_length split (same ▸ new) same
  constructor
  · intro a
    rw [List.mem_append, mem, tail.1, mem_map_snoc, not_or, ← and_or_left, ← and_or_left]
    refine and_congr_right fun _ => and_congr_right fun _ => ?_
    by_cases same : blockOf decode a = blockOf decode x
    · exact iff_of_true (.inl same) (same ▸ new)
    · simp [same]
  · rw [List.pairwise_append]
    refine ⟨ordered.imp_of_mem fun ha hb before => ?_, tail.2, ?_⟩
    · exact .inr ⟨(at_place _ ha).trans (at_place _ hb).symm, before⟩
    · intro a ha b hb
      have later := length_le_place (a := b) (split.trans (List.append_cons before x rest))
        ((tail.1 b).mp hb).2.2
      rw [List.length_append, List.length_singleton] at later
      exact .inl (by rw [at_place a ha]; omega)

theorem PutsOut.skip {out : List AttachmentRow}
    (none : ∀ a ∈ requested, blockOf decode a = blockOf decode x →
      blockOf decode a ∉ before.map (blockOf decode) → ¬Kept decode current requested a)
    (tail : PutsOut decode current requested (before ++ [x]) out) :
    PutsOut decode current requested before out := by
  refine ⟨fun a => ?_, tail.2⟩
  rw [tail.1, mem_map_snoc, not_or]
  constructor
  · rintro ⟨listed, kept, new, -⟩
    exact ⟨listed, kept, new⟩
  · rintro ⟨listed, kept, new⟩
    exact ⟨listed, kept, new, fun same => none a listed same new kept⟩

end Steps

theorem normalizeFrom_putsOut {current requested : List AttachmentRow}
    (distinct : Distinct (current ++ requested)) (before rest : List AttachmentRow)
    (split : requested = before ++ rest) (appendedGroups appendedAttachments : List String)
    (done : Done decode requested before appendedGroups appendedAttachments) :
    PutsOut decode current requested before
      (normalizeFrom decode current requested appendedGroups appendedAttachments rest) := by
  have apart : Distinct requested := fun a ha b hb =>
    distinct a (List.mem_append_right _ ha) b (List.mem_append_right _ hb)
  induction rest generalizing before appendedGroups appendedAttachments with
  | nil =>
      rw [List.append_nil] at split
      refine ⟨fun a => ⟨fun mem => absurd mem List.not_mem_nil, ?_⟩, .nil⟩
      rintro ⟨listed, -, new⟩
      exact absurd (List.mem_map_of_mem (split ▸ listed)) new
  | cons x rest ih =>
      have listed : x ∈ requested := by
        rw [split]
        exact List.mem_append_right _ List.mem_cons_self
      have split' : requested = before ++ [x] ++ rest := split.trans (List.append_cons before x rest)
      unfold normalizeFrom
      cases group : groupOf decode x with
      | none =>
          dsimp only
          by_cases appended : x.uid ∈ appendedAttachments
          · have seen : blockOf decode x ∈ before.map (blockOf decode) := by
              rw [blockOf_none group]
              exact (done.singles x listed group).mp appended
            rw [if_pos appended]
            exact .skip (fun a _ same new => absurd (same ▸ seen) new)
              (ih _ split' _ _ (done.seen seen))
          · have new : blockOf decode x ∉ before.map (blockOf decode) := by
              rw [blockOf_none group]
              exact fun seen => appended ((done.singles x listed group).mpr seen)
            rw [if_neg appended, ← List.singleton_append]
            refine .append split new (fun a => ?_) (List.pairwise_singleton _ x)
              (ih _ split' _ _ (done.single apart listed group))
            rw [List.mem_singleton, blockOf_none group]
            constructor
            · rintro rfl
              refine ⟨listed, fun g other => ?_, blockOf_none group⟩
              rw [group] at other
              cases other
            · rintro ⟨ha, -, same⟩
              exact apart a ha x listed (of_blockOf_alone same).2
      | some groupID =>
          dsimp only
          by_cases appended : groupID ∈ appendedGroups
          · have seen : blockOf decode x ∈ before.map (blockOf decode) := by
              rw [blockOf_some group]
              exact (done.groups groupID).mp appended
            rw [if_pos appended]
            exact .skip (fun a _ same new => absurd (same ▸ seen) new)
              (ih _ split' _ _ (done.seen seen))
          · have new : blockOf decode x ∉ before.map (blockOf decode) := by
              rw [blockOf_some group]
              exact fun seen => appended ((done.groups groupID).mpr seen)
            rw [if_neg appended]
            by_cases partly : PartlyRequested decode current requested groupID
            · rw [if_pos ((partlyRequested_iff distinct groupID).mpr partly)]
              have passed := done.group apart group
                fun a (mem : a ∈ ([] : List AttachmentRow)) => absurd mem List.not_mem_nil
              refine .skip (fun a _ same _ kept => ?_) (ih _ split' _ _ passed)
              rw [blockOf_some group] at same
              exact kept groupID (groupOf_of_blockOf same) partly
            · rw [if_neg fun h => partly ((partlyRequested_iff distinct groupID).mp h)]
              have mem : ∀ a, a ∈ Firsts.firsts AttachmentRow.uid appendedAttachments
                  (groupMembers decode requested groupID) ↔
                  a ∈ requested ∧ groupOf decode a = some groupID := by
                intro a
                by_cases there : a ∈ requested ∧ groupOf decode a = some groupID
                · have fresh : a.uid ∉ appendedAttachments := fun old =>
                    new (blockOf_some group ▸ done.members a there.1 groupID there.2 old)
                  refine iff_of_true ?_ there
                  refine (Firsts.mem_firsts fun b hb same => ?_).mpr
                    ⟨mem_groupMembers.mpr there, fresh⟩
                  exact apart b (mem_groupMembers.mp hb).1 a there.1 same
                · exact iff_of_false
                    (fun kept => there (mem_groupMembers.mp (Firsts.of_mem_firsts kept).1)) there
              have ordered := Firsts.pairwise_firsts AttachmentRow.uid appendedAttachments
                (groupMembers decode requested groupID)
              refine .append split new (fun a => ?_) (ordered.imp_of_mem fun ha hb before => ?_)
                (ih _ split' _ _ (done.group apart group fun a => (mem a).mp))
              · rw [mem, blockOf_some group]
                constructor
                · rintro ⟨ha, of_group⟩
                  refine ⟨ha, fun g other => ?_, blockOf_some of_group⟩
                  rw [of_group, Option.some.injEq] at other
                  exact other ▸ partly
                · rintro ⟨ha, -, same⟩
                  exact ⟨ha, groupOf_of_blockOf same⟩
              · refine Firsts.idxOf_lt_of_filter (fun a ha b hb same => ?_)
                  (Firsts.of_mem_firsts ha).1 (Firsts.of_mem_firsts hb).1 before
                rw [apart a ha b hb same]

/-! ### The result -/

/-- What the result of a request is, by the attachments that it asks for and those that the
memo has. -/
structure Normalized (decode : PayloadReader) (current requested normalized : List AttachmentRow) :
    Prop where
  nodup : normalized.Nodup
  listed : ∀ a ∈ normalized, a ∈ requested
  /-- By the first member of the group that is requested, then by the attachment itself. -/
  ordered : normalized.Pairwise (InOrder decode requested)
  together : ∀ first a middle b last groupID, normalized = first ++ a :: (middle ++ b :: last) →
    groupOf decode a = some groupID → groupOf decode b = some groupID →
    ∀ c ∈ middle, groupOf decode c = some groupID
  all_or_none : ∀ groupID, 2 ≤ (groupMembers decode current groupID).length →
    (∀ a ∈ groupMembers decode current groupID, a ∈ normalized) ∨
      groupMembers decode normalized groupID = []
  dropped : ∀ a ∈ requested, a ∉ normalized →
    ∃ groupID, groupOf decode a = some groupID ∧ PartlyRequested decode current requested groupID

/-- What stands between two members of a group is in it. -/
theorem group_of_between {requested : List AttachmentRow} {a b c : AttachmentRow} {groupID : String}
    (hc : c ∈ requested) (group : groupOf decode a = some groupID)
    (group' : groupOf decode b = some groupID) (before : InOrder decode requested a c)
    (behind : InOrder decode requested c b) : groupOf decode c = some groupID := by
  have same : place decode requested b = place decode requested a := by
    rw [place, place, blockOf_some group, blockOf_some group']
  have there : place decode requested c = place decode requested a := by
    unfold InOrder at before behind
    omega
  have block : blockOf decode c = blockOf decode a :=
    (List.idxOf_inj (List.mem_map_of_mem hc)).mp there
  rw [blockOf_some group] at block
  exact groupOf_of_blockOf block

theorem PutsOut.normalized {current requested normalized : List AttachmentRow}
    (out : PutsOut decode current requested [] normalized) :
    Normalized decode current requested normalized := by
  have mem : ∀ a, a ∈ normalized ↔ a ∈ requested ∧ Kept decode current requested a := by
    intro a
    rw [out.1, List.map_nil]
    simp
  refine ⟨?_, fun a ha => ((mem a).mp ha).1, out.2, ?_, ?_, ?_⟩
  · refine out.2.imp fun before same => ?_
    rw [same] at before
    unfold InOrder at before
    omega
  · rintro first a middle b last groupID rfl group group' c hc
    have ordered := (List.pairwise_append.mp out.2).2.1
    rw [List.pairwise_cons, List.pairwise_append] at ordered
    obtain ⟨behind, -, -, across⟩ := ordered
    have listed : ∀ d ∈ a :: (middle ++ b :: last), d ∈ requested := fun d hd =>
      ((mem d).mp (List.mem_append_right first hd)).1
    exact group_of_between
      (listed c (List.mem_cons_of_mem a (List.mem_append_left _ hc))) group group'
      (behind c (List.mem_append_left _ hc)) (across c hc b List.mem_cons_self)
  · intro groupID several
    by_cases partly : PartlyRequested decode current requested groupID
    · right
      refine List.eq_nil_iff_forall_not_mem.mpr fun a ha => ?_
      obtain ⟨there, group⟩ := mem_groupMembers.mp ha
      exact ((mem a).mp there).2 groupID group partly
    · left
      intro a member
      have group := (mem_groupMembers.mp member).2
      have listed : a ∈ requested := by
        by_contra unlisted
        exact partly ⟨several, a, member, unlisted⟩
      refine (mem a).mpr ⟨listed, fun other same => ?_⟩
      rw [group, Option.some.injEq] at same
      exact same ▸ partly
  · intro a listed absent
    by_contra none
    refine absent ((mem a).mpr ⟨listed, fun groupID group partly => ?_⟩)
    exact none ⟨groupID, group, partly⟩

end Blocks

/-! ### The request -/

section Request

variable {service : APIV1Service} {decode : PayloadReader} {db : Tables}

theorem attachment_eq_of_uid {a b : AttachmentRow} (ha : a ∈ db.attachments) (hb : b ∈ db.attachments)
    (same : a.uid = b.uid) : a = b :=
  Keyed.Table.eq_of_clash ha hb (by simp [AttachmentRow.schema, same])
    (by simp [AttachmentRow.schema, same])

theorem getAttachment_some {uid : String} {a : AttachmentRow}
    (found : getAttachment decode db uid = .ok (some a)) : a ∈ db.attachments ∧ a.uid = uid := by
  unfold getAttachment at found
  dsimp only at found
  cases readable : (db.attachments.select fun a => decide (a.uid = uid) && attachmentListed db a).forM
      fun a => (decode a.payload).map fun _ => () with
  | error err =>
      rw [readable] at found
      cases found
  | ok _ =>
      rw [readable] at found
      have first := List.mem_of_head? (Except.ok.inj found)
      rw [Keyed.Table.mem_select, Bool.and_eq_true, decide_eq_true_iff] at first
      exact ⟨first.1, first.2.1⟩

theorem requestedAttachment_ok {memo : MemoRow} {current : List AttachmentRow}
    {request : Option String} {a : AttachmentRow}
    (ok : service.requestedAttachment decode db memo current request = .ok a) :
    a ∈ db.attachments ∧ ∃ name, request = some name ∧
      service.nameToken name "attachments/" = .ok a.uid := by
  cases request with
  | none => cases ok
  | some name =>
      obtain ⟨uid, token, ok⟩ := bind_accepted.mp ok
      obtain ⟨found, got, ok⟩ := bind_accepted.mp ok
      obtain ⟨row, there, ok⟩ := bind_accepted.mp ok
      obtain ⟨_, -, ok⟩ := bind_accepted.mp ok
      obtain ⟨_, -, ok⟩ := bind_accepted.mp ok
      obtain rfl := pure_accepted.mp ok
      rw [orRefuse_accepted.mp there] at got
      obtain ⟨listed, same⟩ := getAttachment_some (refused_accepted.mp got)
      exact ⟨listed, name, rfl, same ▸ refused_accepted.mp token⟩

theorem requestedAttachments_ok {memo : MemoRow} {current : List AttachmentRow}
    {requests : List (Option String)} {requested : List AttachmentRow}
    (ok : service.requestedAttachments decode db memo current requests = .ok requested) :
    List.Forall₂ (fun request a => a ∈ db.attachments ∧ ∃ name, request = some name ∧
      service.nameToken name "attachments/" = .ok a.uid) requests requested := by
  induction requests generalizing requested with
  | nil =>
      cases ok
      exact .nil
  | cons request requests ih =>
      obtain ⟨a, first, ok⟩ := bind_accepted.mp ok
      obtain ⟨attachments, others, ok⟩ := bind_accepted.mp ok
      obtain rfl := pure_accepted.mp ok
      exact .cons (requestedAttachment_ok first) (ih others)

end Request

/-! ### Timestamps -/

/-- How many attachments come after the first one with this uid. -/
def rank (normalized : List AttachmentRow) (a : AttachmentRow) : Nat :=
  (normalized.reverse.map AttachmentRow.uid).idxOf a.uid

def stamp (clock : Nat → Int) (normalized : List AttachmentRow) (a : AttachmentRow) : Int :=
  clock (rank normalized a) + rank normalized a

def bindingOf (clock : Nat → Int) (prepared : PreparedMemoAttachments) (a : AttachmentRow) :
    MemoAttachmentBinding where
  id := a.id
  uid := a.uid
  updatedTs := stamp clock prepared.normalized a
  wasBoundToMemo := prepared.current.any fun current => decide (current.id = a.id)

theorem rank_getElem {normalized : List AttachmentRow}
    (once : (normalized.map AttachmentRow.uid).Nodup) {i : Nat}
    (hi : i < normalized.reverse.length) : rank normalized normalized.reverse[i] = i := by
  have reversed : (normalized.reverse.map AttachmentRow.uid).Nodup := by
    rw [List.map_reverse]
    exact List.nodup_reverse.mpr once
  have bound : i < (normalized.reverse.map AttachmentRow.uid).length := by rwa [List.length_map]
  have at_index := reversed.idxOf_getElem i bound
  rwa [List.getElem_map] at at_index

theorem bindings_perm (clock : Nat → Int) (prepared : PreparedMemoAttachments)
    (once : (prepared.normalized.map AttachmentRow.uid).Nodup) :
    (buildMemoAttachmentMutationBindingsAt clock prepared).Perm
      (prepared.normalized.map (bindingOf clock prepared)) := by
  unfold buildMemoAttachmentMutationBindingsAt
  refine (List.perm_insertionSort _ _).trans ?_
  have same : prepared.normalized.reverse.zipIdx.map (fun p =>
      ({ id := p.1.id
         uid := p.1.uid
         updatedTs := clock p.2 + p.2
         wasBoundToMemo := prepared.current.any fun current => decide (current.id = p.1.id) }
        : MemoAttachmentBinding))
      = prepared.normalized.reverse.map (bindingOf clock prepared) := by
    refine List.ext_getElem (by simp) fun i hi hi' => ?_
    rw [List.length_map] at hi'
    rw [List.getElem_map, List.getElem_map, List.getElem_zipIdx]
    simp only [bindingOf, stamp, rank_getElem once hi', Nat.zero_add]
  exact (List.Perm.of_eq same).trans ((List.reverse_perm _).map _)

/-- The timestamps fall along the list when the clock does not go back. -/
theorem stamp_decreasing {clock : Nat → Int} (forward : ∀ i j, i ≤ j → clock i ≤ clock j)
    {normalized : List AttachmentRow} (once : (normalized.map AttachmentRow.uid).Nodup) :
    normalized.Pairwise fun a b => stamp clock normalized b < stamp clock normalized a := by
  rw [← List.pairwise_reverse, List.pairwise_iff_getElem]
  intro i j hi hj before
  rw [stamp, stamp, rank_getElem once hi, rank_getElem once hj]
  have later := forward _ _ before.le
  omega

/-! ### What an accepted request makes -/

/-- **An accepted request lists its attachments once, group by group and in order, and the
bindings keep that order.**

Of each group of which the memo has several members the result has all or none, and a
requested attachment is left out only with such a group.  Whatever the clock reads for each
binding, as long as it does not go back, there is one binding for each attachment and
their timestamps fall along the result. -/
theorem normalizeMemoAttachmentRequest_spec {service : APIV1Service} {decode : PayloadReader}
    {db : Tables} {memo : MemoRow} {current normalized : List AttachmentRow}
    {requests : List (Option String)} (rows : ∀ a ∈ current, a ∈ db.attachments)
    (ok : service.normalizeMemoAttachmentRequest decode db memo current requests = .ok normalized) :
    ∃ requested,
      List.Forall₂ (fun request a => a ∈ db.attachments ∧ ∃ name, request = some name ∧
        service.nameToken name "attachments/" = .ok a.uid) requests requested ∧
      Normalized decode current requested normalized ∧
      ∀ (removed : List AttachmentRow) (clock : Nat → Int), (∀ i j, i ≤ j → clock i ≤ clock j) →
        let bindings := buildMemoAttachmentMutationBindingsAt clock ⟨current, normalized, removed⟩
        (bindings.map MemoAttachmentBinding.id).Nodup ∧
        ∃ ts : AttachmentRow → Int,
          (bindings.map fun b => (b.id, b.uid, b.updatedTs)).Perm
            (normalized.map fun a => (a.id, a.uid, ts a)) ∧
          normalized.Pairwise fun a b => ts b < ts a := by
  obtain ⟨requested, accepted, ok⟩ := bind_accepted.mp ok
  obtain rfl := pure_accepted.mp ok
  have named := requestedAttachments_ok accepted
  have listed : ∀ a ∈ requested, a ∈ db.attachments :=
    ((List.forall₂_and_left _ _).mp named.flip).1
  have distinct : Distinct (current ++ requested) := by
    have row : ∀ a ∈ current ++ requested, a ∈ db.attachments := fun a ha =>
      (List.mem_append.mp ha).elim (rows a) (listed a)
    exact fun a ha b hb same => attachment_eq_of_uid (row a ha) (row b hb) same
  have start : Done decode requested [] [] [] :=
    ⟨fun _ => by simp, fun _ _ _ => by simp, fun _ _ _ _ old => absurd old List.not_mem_nil⟩
  have spec := (normalizeFrom_putsOut distinct [] requested rfl [] [] start).normalized
  refine ⟨requested, named, spec, fun removed clock forward => ?_⟩
  have row : ∀ a ∈ normalizeFrom decode current requested [] [] requested, a ∈ db.attachments :=
    fun a ha => listed a (spec.listed a ha)
  have uids := spec.nodup.map_on fun a ha b hb => attachment_eq_of_uid (row a ha) (row b hb)
  have ids := spec.nodup.map_on fun a ha b hb same =>
    Keyed.Table.eq_of_key (row a ha) (row b hb) (same : a.id = b.id)
  have perm := bindings_perm clock ⟨current, _, removed⟩ uids
  refine ⟨?_, stamp clock _, ?_, stamp_decreasing forward uids⟩
  · refine ((perm.map MemoAttachmentBinding.id).nodup_iff).mpr ?_
    rw [List.map_map]
    exact ids
  · refine (perm.map _).trans ?_
    rw [List.map_map]
    exact .refl _

/-! ### A motion photo and a menu -/

def motionPayload : PayloadReader := fun payload =>
  .ok ⟨if payload = "{}" then none else some ⟨payload⟩⟩

/-- The memo has both parts of a motion photo, and a file that belongs to nothing is there. -/
def motionTables : Tables :=
  { pollTables with
    attachments := ⟨[{ AttachmentRow.withDefaults 3 "still" 4 (some 7) .Local with payload := "lunch" },
      { AttachmentRow.withDefaults 4 "video" 4 (some 7) .Local with payload := "lunch" },
      .withDefaults 5 "menu" 4 none .Local], by decide, by decide⟩ }

def motionRequest : List (Option String) :=
  [some "attachments/video", some "attachments/menu", some "attachments/video",
    some "attachments/still"]

theorem normalizeMemoAttachmentRequest_spec_motion : ∃ memo normalized requested,
    plainService.normalizeMemoAttachmentRequest motionPayload motionTables memo
      (listAttachments motionTables 7) motionRequest = .ok normalized ∧
    normalized.map AttachmentRow.uid = ["video", "still", "menu"] ∧
    Normalized motionPayload (listAttachments motionTables 7) requested normalized := by
  obtain ⟨memo, there⟩ : ∃ memo, motionTables.memos.find? 7 = some memo := ⟨_, rfl⟩
  obtain ⟨normalized, ok⟩ : ∃ normalized,
      plainService.normalizeMemoAttachmentRequest motionPayload motionTables memo
        (listAttachments motionTables 7) motionRequest = .ok normalized := by
    cases there
    exact ⟨_, rfl⟩
  have rows : ∀ a ∈ listAttachments motionTables 7, a ∈ motionTables.attachments := by
    intro a ha
    exact (Keyed.Table.mem_select.mp ((List.perm_insertionSort _ _).mem_iff.mp ha)).1
  obtain ⟨requested, -, spec, -⟩ := normalizeMemoAttachmentRequest_spec rows ok
  refine ⟨memo, normalized, requested, ok, ?_, spec⟩
  cases there
  cases ok
  decide +kernel

end Memos.Api

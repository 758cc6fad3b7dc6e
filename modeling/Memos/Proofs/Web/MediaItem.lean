/-
Whether every attachment is shown once.

An item shows an attachment of its own or a live photo, so two items with different identities
share nothing, and every attachment is in an item before they are told apart.  One is lost
exactly when the id of a live photo is the name of an attachment that has an item of its own:
of the two items with one identity the second is dropped.
-/
import Memos.Web.MediaItem
import Mathlib.Data.List.Induction

namespace Memos.Web

section Items

variable {attachments front : List Attachment} {a b : Attachment} {groupId : String}

/-! ### Groups -/

def group (attachments : List Attachment) (groupId : String) : List Attachment :=
  attachments.filter fun a => getAttachmentMotionGroupId a = some groupId

theorem mem_group : a ∈ group attachments groupId ↔
    a ∈ attachments ∧ getAttachmentMotionGroupId a = some groupId := by
  unfold group
  rw [List.mem_filter, decide_eq_true_eq]

theorem groupOf_addToGroup (groups : Groups) (a : Attachment) : groupOf (addToGroup groups a) groupId =
    groupOf groups groupId ++ if getAttachmentMotionGroupId a = some groupId then [a] else [] := by
  unfold addToGroup
  cases of : getAttachmentMotionGroupId a with
  | none => rw [if_neg nofun, List.append_nil]
  | some other =>
      dsimp only
      by_cases same : other = groupId
      · rw [same, if_pos rfl]
        unfold groupOf
        rw [AList.lookup_insert, Option.getD_some]
      · rw [if_neg (fun eq => same (Option.some_inj.mp eq)), List.append_nil]
        unfold groupOf
        rw [AList.lookup_insert_ne (Ne.symm same)]

theorem groupOf_attachmentsByGroup :
    groupOf (attachmentsByGroup attachments) groupId = group attachments groupId := by
  unfold attachmentsByGroup
  induction attachments using List.reverseRecOn with
  | nil => rfl
  | append_singleton attachments a ih =>
      rw [List.foldl_append, List.foldl_cons, List.foldl_nil, groupOf_addToGroup, ih]
      unfold group
      rw [List.filter_append]
      by_cases of : getAttachmentMotionGroupId a = some groupId
      · simp [of]
      · simp [of]

/-- The group is a still and a video, and nothing else. -/
structure LivePhoto (attachments : List Attachment) (groupId : String) : Prop where
  two : (group attachments groupId).length = 2
  still : ∃ a ∈ group attachments groupId, isAppleLivePhotoStill a = true
  video : ∃ a ∈ group attachments groupId, isAppleLivePhotoVideo a = true

def Paired (attachments : List Attachment) (a : Attachment) : Prop :=
  ∃ groupId, getAttachmentMotionGroupId a = some groupId ∧ LivePhoto attachments groupId

theorem video_ne_still (video : isAppleLivePhotoVideo a = true) (still : isAppleLivePhotoStill b = true) :
    a ≠ b := by
  rintro rfl
  unfold isAppleLivePhotoStill at still
  unfold isAppleLivePhotoVideo at video
  cases motion : a.motionMedia with
  | none =>
      rw [motion] at still
      cases still
  | some m =>
      rw [motion, Option.any_some, decide_eq_true_eq] at still video
      have both := still.2.symm.trans video.2
      cases both

/-- Two members, a still and a video: these are all. -/
theorem perm_of_two {l : List Attachment} (two : l.length = 2) (mem : a ∈ l) (mem' : b ∈ l)
    (differ : a ≠ b) : l.Perm [a, b] := by
  obtain ⟨x, y, rfl⟩ := List.length_eq_two.mp two
  rcases List.mem_pair.mp mem with rfl | rfl
  · rcases List.mem_pair.mp mem' with rfl | rfl
    · exact absurd rfl differ
    · exact .refl _
  · rcases List.mem_pair.mp mem' with rfl | rfl
    · exact .swap _ _ _
    · exact absurd rfl differ

theorem not_android_of_apple (apple : isAppleLivePhotoStill a = true ∨ isAppleLivePhotoVideo a = true) :
    isAndroidMotionContainer a = false := by
  unfold isAppleLivePhotoStill isAppleLivePhotoVideo at apple
  unfold isAndroidMotionContainer
  cases motion : a.motionMedia with
  | none => rfl
  | some m =>
      rw [motion, Option.any_some, Option.any_some, decide_eq_true_eq, decide_eq_true_eq] at apple
      have family : m.family = .appleLivePhoto := apple.elim And.left And.left
      rw [Option.any_some, decide_eq_false_iff_not, family]
      rintro ⟨other, -⟩
      cases other

theorem Paired.not_android (mem : a ∈ attachments) (paired : Paired attachments a) :
    isAndroidMotionContainer a = false := by
  obtain ⟨groupId, of, two, ⟨s, memS, still⟩, v, memV, video⟩ := paired
  have perm := perm_of_two two memS memV (video_ne_still video still).symm
  rcases List.mem_pair.mp (perm.mem_iff.mp (mem_group.mpr ⟨mem, of⟩)) with rfl | rfl
  · exact not_android_of_apple (.inl still)
  · exact not_android_of_apple (.inr video)

/-! ### What items show -/

def Own (item : AttachmentVisualItem) (a : Attachment) : Prop :=
  item.id = a.name ∧ item.attachments = [a]

def Live (attachments : List Attachment) (item : AttachmentVisualItem) (groupId : String) : Prop :=
  item.id = groupId ∧ item.attachments.Perm (group attachments groupId)

def Shows (attachments : List Attachment) (item : AttachmentVisualItem) : Prop :=
  (∃ a ∈ attachments, ¬Paired attachments a ∧ Own item a) ∨
    ∃ groupId, LivePhoto attachments groupId ∧ Live attachments item groupId

/-- The group has been dealt with: its live photo, or each of its members. -/
def Dealt (attachments : List Attachment) (items : List AttachmentVisualItem) (groupId : String) : Prop :=
  (LivePhoto attachments groupId → ∃ item ∈ items, Live attachments item groupId) ∧
    (¬LivePhoto attachments groupId → ∀ a ∈ group attachments groupId, ∃ item ∈ items, Own item a)

/-- What holds in front of every turn of the loop. -/
structure Inv (attachments front : List Attachment) (s : Building) : Prop where
  shows' : ∀ item ∈ s.items, Shows attachments item
  dealt : ∀ groupId ∈ s.consumedGroups, Dealt attachments s.items groupId
  met : ∀ a ∈ front, (∃ item ∈ s.items, Own item a) ∨
    ∃ groupId ∈ s.consumedGroups, getAttachmentMotionGroupId a = some groupId

theorem Dealt.append {items : List AttachmentVisualItem} (dealt : Dealt attachments items groupId)
    (more : List AttachmentVisualItem) : Dealt attachments (items ++ more) groupId := by
  refine ⟨fun live => ?_, fun other a mem => ?_⟩
  · obtain ⟨item, mem, is⟩ := dealt.1 live
    exact ⟨item, List.mem_append_left _ mem, is⟩
  · obtain ⟨item, mem, is⟩ := dealt.2 other a mem
    exact ⟨item, List.mem_append_left _ mem, is⟩

theorem Inv.own {s : Building} {item : AttachmentVisualItem} (inv : Inv attachments front s)
    (mem : a ∈ attachments) (single : ¬Paired attachments a) (own : Own item a) :
    Inv attachments (front ++ [a]) { s with items := s.items ++ [item] } := by
  refine ⟨fun other mem' => ?_, fun groupId known => (inv.dealt groupId known).append _, ?_⟩
  · rcases List.mem_append.mp mem' with mem' | mem'
    · exact inv.shows' other mem'
    · rw [List.mem_singleton.mp mem']
      exact .inl ⟨a, mem, single, own⟩
  · intro b mem'
    rcases List.mem_append.mp mem' with mem' | mem'
    · rcases inv.met b mem' with ⟨item', there, is⟩ | known
      · exact .inl ⟨item', List.mem_append_left _ there, is⟩
      · exact .inr known
    · rw [List.mem_singleton.mp mem']
      exact .inl ⟨item, List.mem_append_right _ (List.mem_singleton_self _), own⟩

theorem Inv.consume {s : Building} {items : List AttachmentVisualItem} (inv : Inv attachments front s)
    (of : getAttachmentMotionGroupId a = some groupId) (shows' : ∀ item ∈ items, Shows attachments item)
    (dealt : Dealt attachments items groupId) :
    Inv attachments (front ++ [a]) ⟨groupId :: s.consumedGroups, s.items ++ items⟩ := by
  refine ⟨fun other mem => ?_, fun other known => ?_, fun b mem => ?_⟩
  · rcases List.mem_append.mp mem with mem | mem
    · exact inv.shows' other mem
    · exact shows' other mem
  · rcases List.mem_cons.mp known with rfl | known
    · refine ⟨fun live => ?_, fun not b mem => ?_⟩
      · obtain ⟨item, mem, is⟩ := dealt.1 live
        exact ⟨item, List.mem_append_right _ mem, is⟩
      · obtain ⟨item, mem, is⟩ := dealt.2 not b mem
        exact ⟨item, List.mem_append_right _ mem, is⟩
    · exact (inv.dealt other known).append _
  · rcases List.mem_append.mp mem with mem | mem
    · rcases inv.met b mem with ⟨item', there, is⟩ | ⟨other, known, is⟩
      · exact .inl ⟨item', List.mem_append_left _ there, is⟩
      · exact .inr ⟨other, List.mem_cons_of_mem _ known, is⟩
    · rw [List.mem_singleton.mp mem]
      exact .inr ⟨groupId, List.mem_cons_self, of⟩

theorem Inv.skip {s : Building} (inv : Inv attachments front s)
    (of : getAttachmentMotionGroupId a = some groupId) (known : groupId ∈ s.consumedGroups) :
    Inv attachments (front ++ [a]) s := by
  refine ⟨inv.shows', inv.dealt, fun b mem => ?_⟩
  rcases List.mem_append.mp mem with mem | mem
  · exact inv.met b mem
  · rw [List.mem_singleton.mp mem]
    exact .inr ⟨groupId, known, of⟩

theorem not_paired_of_group (of : getAttachmentMotionGroupId a = some groupId)
    (other : ¬LivePhoto attachments groupId) : ¬Paired attachments a := by
  rintro ⟨groupId', of', live⟩
  rw [of, Option.some_inj] at of'
  rw [of'] at other
  exact other live

theorem live_buildAppleMotionItem (page : Page) {still video : Attachment}
    (two : (group attachments groupId).length = 2)
    (found : (group attachments groupId).find? isAppleLivePhotoStill = some still)
    (found' : (group attachments groupId).find? isAppleLivePhotoVideo = some video) :
    LivePhoto attachments groupId ∧ Live attachments (buildAppleMotionItem page still video) groupId := by
  have memS := List.mem_of_find?_eq_some found
  have memV := List.mem_of_find?_eq_some found'
  have isS := List.find?_some found
  have isV := List.find?_some found'
  refine ⟨⟨two, ⟨still, memS, isS⟩, video, memV, isV⟩, ?_, ?_⟩
  · show (getAttachmentMotionGroupId still).getD still.name = groupId
    rw [(mem_group.mp memS).2, Option.getD_some]
  · exact (perm_of_two two memS memV (video_ne_still isV isS).symm).symm

theorem mem_singleItems {page : Page} {l : List Attachment} {item : AttachmentVisualItem} :
    item ∈ singleItems page a l ↔ item = buildSingleAttachmentItem page a ∨
      ∃ b ∈ l, b.name ≠ a.name ∧ buildSingleAttachmentItem page b = item := by
  unfold singleItems
  rw [List.mem_cons, List.mem_map]
  simp only [List.mem_filter, decide_eq_true_eq, and_assoc]

theorem dealt_singleItems (page : Page) (distinct : (attachments.map Attachment.name).Nodup)
    (mem : a ∈ attachments) (of : getAttachmentMotionGroupId a = some groupId)
    (other : ¬LivePhoto attachments groupId) :
    (∀ item ∈ singleItems page a (group attachments groupId), Shows attachments item) ∧
      Dealt attachments (singleItems page a (group attachments groupId)) groupId := by
  refine ⟨fun item mem' => ?_, fun live => absurd live other, fun _ b mem' => ?_⟩
  · rcases mem_singleItems.mp mem' with rfl | ⟨b, inGroup, -, rfl⟩
    · exact .inl ⟨a, mem, not_paired_of_group of other, rfl, rfl⟩
    · obtain ⟨memB, ofB⟩ := mem_group.mp inGroup
      exact .inl ⟨b, memB, not_paired_of_group ofB other, rfl, rfl⟩
  · refine ⟨buildSingleAttachmentItem page b, mem_singleItems.mpr ?_, rfl, rfl⟩
    by_cases same : b.name = a.name
    · rw [List.inj_on_of_nodup_map distinct (mem_group.mp mem').1 mem same]
      exact .inl rfl
    · exact .inr ⟨b, mem', same, rfl⟩

theorem Inv.step {page : Page} {s : Building} (distinct : (attachments.map Attachment.name).Nodup)
    (inv : Inv attachments front s) (mem : a ∈ attachments) :
    Inv attachments (front ++ [a]) (buildItem page (attachmentsByGroup attachments) s a) := by
  unfold buildItem
  split
  next android =>
    refine inv.own mem (fun paired => ?_) ⟨rfl, rfl⟩
    rw [paired.not_android mem] at android
    cases android
  · split
    next alone =>
      refine inv.own mem ?_ ⟨rfl, rfl⟩
      rintro ⟨groupId, of, -⟩
      rw [alone] at of
      cases of
    next groupId of =>
      split
      next known => exact inv.skip of known
      · dsimp only
        rw [groupOf_attachmentsByGroup]
        split
        next still video found found' =>
          split
          next two =>
            obtain ⟨live, is⟩ := live_buildAppleMotionItem page two found found'
            refine inv.consume of ?_ ⟨fun _ => ⟨_, List.mem_singleton_self _, is⟩, fun other => absurd live other⟩
            intro item mem'
            rw [List.mem_singleton.mp mem']
            exact .inr ⟨groupId, live, is⟩
          next more =>
            obtain ⟨shows', dealt⟩ := dealt_singleItems page distinct mem of fun live => more live.two
            exact inv.consume of shows' dealt
        next none =>
          obtain ⟨shows', dealt⟩ := dealt_singleItems page distinct mem of fun live => by
            obtain ⟨-, ⟨x, memX, still⟩, y, memY, video⟩ := live
            obtain ⟨s, found⟩ := Option.isSome_iff_exists.mp (List.find?_isSome.mpr ⟨x, memX, still⟩)
            obtain ⟨v, found'⟩ := Option.isSome_iff_exists.mp (List.find?_isSome.mpr ⟨y, memY, video⟩)
            exact none s v found found'
          exact inv.consume of shows' dealt

end Items

/-! ### Telling the items apart -/

section Cover

variable {attachments : List Attachment} {a : Attachment} {groupId : String}
  {item other : AttachmentVisualItem}

/-- Of every attachment there is an item, and of every live photo. -/
structure Complete (attachments : List Attachment) (items : List AttachmentVisualItem) : Prop where
  shows' : ∀ item ∈ items, Shows attachments item
  own : ∀ a ∈ attachments, ¬Paired attachments a → ∃ item ∈ items, Own item a
  live : ∀ groupId, LivePhoto attachments groupId → ∃ item ∈ items, Live attachments item groupId

theorem complete_foldl (page : Page) (distinct : (attachments.map Attachment.name).Nodup) :
    Complete attachments
      (attachments.foldl (buildItem page (attachmentsByGroup attachments)) ⟨[], []⟩).items := by
  have inv (front : List Attachment) (some' : front <+: attachments) : Inv attachments front
      (front.foldl (buildItem page (attachmentsByGroup attachments)) ⟨[], []⟩) := by
    induction front using List.reverseRecOn with
    | nil => exact ⟨fun _ mem => (nomatch mem), fun _ mem => (nomatch mem), fun _ mem => (nomatch mem)⟩
    | append_singleton front a ih =>
        rw [List.foldl_append, List.foldl_cons, List.foldl_nil]
        have mem : a ∈ attachments := some'.subset (List.mem_append_right _ (List.mem_singleton_self a))
        exact (ih ((List.prefix_append front [a]).trans some')).step distinct mem
  obtain ⟨shows', dealt, met⟩ := inv attachments List.prefix_rfl
  refine ⟨shows', fun a mem single => ?_, fun groupId live => ?_⟩
  · rcases met a mem with own | ⟨groupId, known, of⟩
    · exact own
    · exact (dealt groupId known).2 (fun live => single ⟨groupId, of, live⟩) a (mem_group.mpr ⟨mem, of⟩)
  · obtain ⟨s, memS, -⟩ := live.still
    obtain ⟨mem, of⟩ := mem_group.mp memS
    rcases met s mem with ⟨item, there, own⟩ | ⟨groupId', known, of'⟩
    · rcases shows' item there with ⟨b, -, single, own'⟩ | ⟨groupId', live', is⟩
      · have same : s = b := List.singleton_inj.mp (own.2.symm.trans own'.2)
        exact absurd ⟨groupId, of, live⟩ (same ▸ single)
      · have short := is.2.length_eq
        rw [own.2, live'.two] at short
        cases short
    · rw [of, Option.some_inj] at of'
      exact (dealt groupId (of' ▸ known)).1 live

/-- What an item with an attachment in it is. -/
theorem Shows.of_mem (shows' : Shows attachments item) (mem : a ∈ item.attachments) :
    a ∈ attachments ∧ (¬Paired attachments a ∧ Own item a ∨
      ∃ groupId, getAttachmentMotionGroupId a = some groupId ∧ LivePhoto attachments groupId ∧
        Live attachments item groupId) := by
  rcases shows' with ⟨b, memB, single, own⟩ | ⟨groupId, live, is⟩
  · rw [own.2] at mem
    rw [List.mem_singleton.mp mem]
    exact ⟨memB, .inl ⟨single, own⟩⟩
  · obtain ⟨memA, of⟩ := mem_group.mp (is.2.mem_iff.mp mem)
    exact ⟨memA, .inr ⟨groupId, of, live, is⟩⟩

theorem id_eq_of_mem (shows' : Shows attachments item) (shows₂ : Shows attachments other)
    (mem : a ∈ item.attachments) (mem₂ : a ∈ other.attachments) : item.id = other.id := by
  obtain ⟨-, ⟨single, own⟩ | ⟨groupId, of, live, is⟩⟩ := shows'.of_mem mem
  · obtain ⟨-, ⟨-, own₂⟩ | ⟨groupId, of, live, -⟩⟩ := shows₂.of_mem mem₂
    · exact own.1.trans own₂.1.symm
    · exact absurd ⟨groupId, of, live⟩ single
  · obtain ⟨-, ⟨single, -⟩ | ⟨groupId₂, of₂, -, is₂⟩⟩ := shows₂.of_mem mem₂
    · exact absurd ⟨groupId, of, live⟩ single
    · rw [of, Option.some_inj] at of₂
      rw [is.1, is₂.1, of₂]

/-- Items with different identities have different attachments, and none twice. -/
theorem nodup_flatMap (distinct : attachments.Nodup) {items : List AttachmentVisualItem}
    (shows' : ∀ item ∈ items, Shows attachments item)
    (ids : (items.map AttachmentVisualItem.id).Nodup) :
    (items.flatMap AttachmentVisualItem.attachments).Nodup := by
  rw [List.nodup_flatMap]
  constructor
  · intro item mem
    rcases shows' item mem with ⟨a, -, -, own⟩ | ⟨groupId, -, is⟩
    · rw [own.2]
      exact List.nodup_singleton a
    · exact is.2.nodup_iff.mpr (distinct.filter _)
  · refine (List.pairwise_map.mp ids).imp_of_mem fun mem mem' differ => ?_
    intro a here there
    exact differ (id_eq_of_mem (shows' _ mem) (shows' _ mem') here there)

/-- No live photo has as its id the name of an attachment that is shown on its own. -/
def IdsApart (attachments : List Attachment) : Prop :=
  ∀ groupId, LivePhoto attachments groupId → ∀ a ∈ attachments, a.name = groupId → Paired attachments a

/-- Every attachment is shown exactly once when the identities are apart, and only then. -/
theorem visualItems_cover_iff (page : Page) (attachments : List Attachment)
    (distinct : (attachments.map Attachment.name).Nodup) :
    ((buildAttachmentVisualItems page attachments).flatMap AttachmentVisualItem.attachments).Perm
      attachments ↔ IdsApart attachments := by
  have complete := complete_foldl page distinct
  unfold buildAttachmentVisualItems
  generalize (attachments.foldl (buildItem page (attachmentsByGroup attachments)) ⟨[], []⟩).items = items
    at complete
  have shows' : ∀ item ∈ dedupeVisualItems items, Shows attachments item := fun item mem =>
    complete.shows' item (Firsts.of_mem_firsts mem).1
  have kept (item : AttachmentVisualItem) (mem : item ∈ items) :
      ∃ first ∈ dedupeVisualItems items, first.id = item.id :=
    Firsts.exists_mem_firsts mem List.not_mem_nil
  have ids : ((dedupeVisualItems items).map AttachmentVisualItem.id).Nodup := Firsts.nodup_firsts AttachmentVisualItem.id [] items
  constructor
  · intro cover groupId live a mem named
    by_contra single
    obtain ⟨own, memOwn, isOwn⟩ := complete.own a mem single
    obtain ⟨first, memFirst, id⟩ := kept own memOwn
    -- The item with this identity is one of the two.
    rcases shows' first memFirst with ⟨b, memB, -, isB⟩ | ⟨groupId₂, live₂, is₂⟩
    · obtain ⟨s, memS, -⟩ := live.still
      obtain ⟨inS, of⟩ := mem_group.mp memS
      obtain ⟨item, memItem, memS⟩ := List.mem_flatMap.mp (cover.mem_iff.mpr inS)
      obtain ⟨-, ⟨alone, -⟩ | ⟨groupId₂, of₂, live₂, is₂⟩⟩ := (shows' item memItem).of_mem memS
      · exact alone ⟨groupId, of, live⟩
      · rw [of, Option.some_inj] at of₂
        have same : item = first := by
          refine List.inj_on_of_nodup_map ids memItem memFirst ?_
          rw [is₂.1, id, isOwn.1, named, of₂]
        have short := is₂.2.length_eq
        rw [same, isB.2, live₂.two] at short
        cases short
    · obtain ⟨item, memItem, memA⟩ := List.mem_flatMap.mp (cover.mem_iff.mpr mem)
      obtain ⟨-, ⟨-, isA⟩ | ⟨groupId₃, of₃, live₃, -⟩⟩ := (shows' item memItem).of_mem memA
      · have same : item = first := by
          refine List.inj_on_of_nodup_map ids memItem memFirst ?_
          rw [isA.1, id, isOwn.1]
        have short := is₂.2.length_eq
        rw [← same, isA.2, live₂.two] at short
        cases short
      · exact single ⟨groupId₃, of₃, live₃⟩
  · intro apart
    have distinct' : attachments.Nodup := List.Nodup.of_map _ distinct
    rw [List.perm_ext_iff_of_nodup (nodup_flatMap distinct' shows' ids) distinct']
    intro a
    rw [List.mem_flatMap]
    constructor
    · rintro ⟨item, mem, memA⟩
      exact ((shows' item mem).of_mem memA).1
    · intro mem
      by_cases paired : Paired attachments a
      · obtain ⟨groupId, of, live⟩ := paired
        obtain ⟨item, memItem, is⟩ := complete.live groupId live
        obtain ⟨first, memFirst, id⟩ := kept item memItem
        refine ⟨first, memFirst, ?_⟩
        rcases shows' first memFirst with ⟨b, memB, single, isB⟩ | ⟨groupId₂, -, is₂⟩
        · exact absurd (apart groupId live b memB (by rw [← isB.1, id, is.1])) single
        · have same : groupId₂ = groupId := by rw [← is₂.1, id, is.1]
          rw [same] at is₂
          exact is₂.2.mem_iff.mpr (mem_group.mpr ⟨mem, of⟩)
      · obtain ⟨item, memItem, isA⟩ := complete.own a mem paired
        obtain ⟨first, memFirst, id⟩ := kept item memItem
        refine ⟨first, memFirst, ?_⟩
        rcases shows' first memFirst with ⟨b, memB, single, isB⟩ | ⟨groupId, live, is⟩
        · have same : b = a := List.inj_on_of_nodup_map distinct memB mem (by rw [← isB.1, id, isA.1])
          rw [isB.2, same]
          exact List.mem_singleton_self a
        · exact absurd (apart groupId live a mem (by rw [← is.1, id, isA.1])) paired

end Cover

/-! ### A live photo under the name of another picture -/

def here : Page := ⟨"https://memos.example", fun _ _ => none⟩

def picture (name : String) (motionMedia : Option MotionMedia) : Attachment :=
  { name, filename := "photo.jpg", externalLink := "", type := "image/jpeg", motionMedia }

def livePhoto (groupId : String) : List Attachment :=
  [picture "attachments/still" (some ⟨.appleLivePhoto, .still, groupId, 0, false⟩),
    picture "attachments/clip" (some ⟨.appleLivePhoto, .video, groupId, 0, false⟩)]

/-- A picture, and a live photo with an id of its own. -/
theorem visualItems_cover_iff_album :
    ((buildAttachmentVisualItems here (picture "attachments/cat" none :: livePhoto "live-1")).flatMap
      AttachmentVisualItem.attachments).Perm (picture "attachments/cat" none :: livePhoto "live-1") := by
  refine (visualItems_cover_iff here _ (by decide)).mpr ?_
  intro groupId live a mem named
  obtain ⟨s, memS, still⟩ := live.still
  obtain ⟨inS, of⟩ := mem_group.mp memS
  refine absurd ?_ (show "live-1" ∉ ["attachments/cat", "attachments/still", "attachments/clip"] by decide)
  have same : groupId = "live-1" := by
    simp only [livePhoto, List.mem_cons, List.not_mem_nil, or_false] at inS
    rcases inS with rfl | rfl | rfl
    · cases of
    · exact (Option.some_inj.mp of).symm
    · exact (Option.some_inj.mp of).symm
  rw [← same, ← named]
  exact List.mem_map_of_mem (f := Attachment.name) mem

theorem live_photo_lost :
    ¬((buildAttachmentVisualItems here
        (picture "attachments/cat" none :: livePhoto "attachments/cat")).flatMap
      AttachmentVisualItem.attachments).Perm
        (picture "attachments/cat" none :: livePhoto "attachments/cat") := by
  intro cover
  have short := cover.length_eq
  revert short
  decide

end Memos.Web

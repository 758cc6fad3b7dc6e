/-
What becomes of the memos when the list of the categories is submitted.

Every step acts on each memo by itself: it clears the memo's category, sets it, or leaves
it.  So a memo ends in the category of the last entry that names it, and without one it
is cleared if its category is gone.  What is stored is the slugs that are not blank, and
as long as no slug has white space around it these are the ones the memos were compared
with.

A memo can be in a category that is in neither list, when it was in the trash as the
category went.  It stays there.  And when the store fails on the way, the memos that were
written stay written.
-/
import Memos.Api.MemoCategory
import Memos.Lib.Scan
import Memos.Proofs.Api.ScheduledReview

namespace Memos.Api

open Store Access Durable
open Durable.Process hiding pure bind

variable {service : APIV1Service} {now : Int} {s t : State}

/-! ### One memo, written -/

def withCategory (memo : MemoRow) (category : String) : MemoRow :=
  { memo with payload := { memo.payload with category } }

def clearRow (category : String) (memo : MemoRow) : MemoRow :=
  if memo.deletedTs = none ∧ memo.payload.category = category then withCategory memo "" else memo

/-- What happens to a memo that may be the one that is named. -/
def assignRow (memoUID category : String) (memo : MemoRow) : MemoRow :=
  if memo.deletedTs = none ∧ memo.uid = memoUID then withCategory memo category else memo

theorem withCategory_self (memo : MemoRow) : withCategory memo memo.payload.category = memo := rfl

/-- A process that ends has done the same to every memo, whatever else there is. -/
def Acts {α : Type} (m : CategoryProcess α) (g : MemoRow → MemoRow) : Prop :=
  ∀ s a t, Ends m s a t → ∀ id, t.memos.find? id = (s.memos.find? id).map g

theorem acts_pure {α : Type} (a : α) : Acts (pure a) id := by
  intro s b t h memoID
  rw [(ends_pure.mp h).2]
  exact (congrFun Option.map_id _).symm

theorem Acts.onlyIf {m : CategoryProcess Unit} {g : MemoRow → MemoRow} (acts : Acts m g)
    (condition : Bool) :
    Acts (Process.onlyIf condition m) (if condition then g else id) := by
  cases condition with
  | true => exact acts
  | false => exact acts_pure ()

theorem Acts.forEach {α : Type} {f : α → CategoryProcess Unit} {g : α → MemoRow → MemoRow}
    (acts : ∀ a, Acts (f a) (g a)) (l : List α) :
    Acts (Process.forEach l f) fun memo => l.foldl (fun memo a => g a memo) memo := by
  induction l with
  | nil =>
      intro s _ t h memoID
      rw [ends_forEach_nil.mp h]
      exact (congrFun Option.map_id _).symm
  | cons a l ih =>
      intro s _ t h memoID
      obtain ⟨u, first, rest⟩ := ends_forEach_cons.mp h
      rw [ih u () t rest memoID, acts a s () u first memoID, Option.map_map]
      rfl

theorem updateMemo_payload_rows {validUID : String → Bool} {memo : MemoRow} {payload : MemoPayload}
    (h : Store.updateMemo validUID s now (payloadUpdate memo payload) = .ok t) (id : Int) :
    t.memos.find? id = (s.memos.find? id).map fun row =>
      if row.id = memo.id then { row with payload } else row := by
  obtain ⟨memos, written, h⟩ := bind_eq_ok.mp (applyMemoUpdate_of_updateMemo h)
  change captureMemoRevision s now (payloadUpdate memo payload) = _ at written
  obtain rfl : s = memos := Except.ok.inj written
  obtain ⟨memos, written, h⟩ := bind_eq_ok.mp h
  rw [pure_eq_ok] at h
  rw [← h]
  show memos.find? id = _
  rw [Keyed.Table.find?_update (of_constrained written) (fun _ => rfl)]
  refine Option.map_congr fun row _ => if_congr decide_eq_true_iff ?_ rfl
  rfl

theorem writeCategory_rows {memo : MemoRow} {category : String} {failed : StoreError → CategoryError}
    (h : Ends (service.writeCategory now memo category failed) s () t)
    (stored : s.memos.find? memo.id = some memo) (id : Int) :
    t.memos.find? id = (s.memos.find? id).map fun row =>
      if row.id = memo.id then withCategory row category else row := by
  unfold APIV1Service.writeCategory at h
  rw [ends_write] at h
  cases updated : Store.updateMemo service.validUID s now
      (payloadUpdate memo { memo.payload with category }) with
  | error err =>
      rw [updated] at h
      cases h
  | ok after =>
      rw [updated] at h
      obtain rfl : after = t := Except.ok.inj h
      rw [updateMemo_payload_rows updated]
      refine Option.map_congr fun row found => ?_
      by_cases own : row.id = memo.id
      · -- The payload that is written is the one that was read.
        have key : row.id = id := (Keyed.Table.find?_eq_some.mp found).2
        rw [← own, key, found, Option.some_inj] at stored
        rw [if_pos own, if_pos own, stored]
        rfl
      · rw [if_neg own, if_neg own]

/-! ### What each step does -/

theorem getMemo_eq_some {uid : String} {memo : MemoRow} (h : getMemo s uid = some memo) :
    memo ∈ s.memos ∧ memo.deletedTs = none ∧ memo.uid = uid := by
  have mem := Keyed.Table.mem_select.mp (List.mem_of_head? h)
  rw [Bool.and_eq_true, decide_eq_true_eq, decide_eq_true_eq] at mem
  exact ⟨mem.1, mem.2⟩

theorem acts_setMemoCategoryByUID (memoUID category : String) :
    Acts (service.setMemoCategoryByUID now memoUID category) (assignRow memoUID category) := by
  intro s _ t h id
  obtain ⟨memo, between, read, h⟩ := ends_bind.mp h
  obtain ⟨found, rfl⟩ := ends_check.mp read
  obtain rfl : getMemo s memoUID = memo := Except.ok.inj found
  have other : ∀ row, s.memos.find? id = some row → (getMemo s memoUID).map (·.id) ≠ some row.id →
      assignRow memoUID category row = row := by
    intro row stored apart
    refine if_neg fun named => apart ?_
    have there := (Keyed.Table.find?_eq_some.mp stored).1
    rw [← named.2, getMemo_uid there, if_pos named.1, Option.map_some]
  cases found : getMemo s memoUID with
  | none =>
      rw [found] at h other
      rw [← (ends_pure.mp h).2]
      cases stored : s.memos.find? id with
      | none => rfl
      | some row => rw [Option.map_some, other row stored nofun]
  | some memo =>
      rw [found] at h other
      obtain ⟨there, live, uid⟩ := getMemo_eq_some found
      have stored := Keyed.Table.find?_eq_some.mpr ⟨there, rfl⟩
      have assigned : assignRow memoUID category memo = withCategory memo category :=
        if_pos ⟨live, uid⟩
      have own : ∀ row, s.memos.find? id = some row → row.id = memo.id → row = memo := by
        intro row found same
        exact Keyed.Table.eq_of_key (Keyed.Table.find?_eq_some.mp found).1 there same
      rcases ends_onlyIf.mp h with ⟨-, wrote⟩ | ⟨same, rfl⟩
      · rw [writeCategory_rows wrote stored]
        refine Option.map_congr fun row found => ?_
        by_cases is : row.id = memo.id
        · rw [if_pos is, own row found is, assigned]
        · rw [if_neg is, other row found fun same => is (Option.some_inj.mp same).symm]
      · have same : memo.payload.category = category := by
          simpa using same
        cases found : s.memos.find? id with
        | none => rfl
        | some row =>
            rw [Option.map_some]
            by_cases is : row.id = memo.id
            · rw [own row found is, assigned, ← same, withCategory_self]
            · rw [other row found fun same => is (Option.some_inj.mp same).symm]

theorem mem_memosInCategory {category : String} {memo : MemoRow} :
    memo ∈ memosInCategory s category ↔
      memo ∈ s.memos ∧ memo.deletedTs = none ∧ memo.payload.category = category := by
  unfold memosInCategory
  rw [List.mem_insertionSort, Keyed.Table.mem_select, Bool.and_eq_true, decide_eq_true_eq,
    decide_eq_true_eq]

theorem memosInCategory_ids {category : String} :
    ((memosInCategory s category).map (·.id)).Nodup := by
  refine (((List.perm_insertionSort _ _).map _).nodup_iff).mpr ?_
  exact (Keyed.Table.keys_nodup s.memos).sublist (List.filter_sublist.map _)

/-- The memos of a list are cleared one after the other, each as it was read. -/
theorem clear_rows {l : List MemoRow} (distinct : (l.map (·.id)).Nodup)
    (stored : ∀ memo ∈ l, s.memos.find? memo.id = some memo)
    (some : ∀ memo ∈ l, memo.payload.category ≠ "")
    (h : Ends (Process.forEach l fun memo => Process.onlyIf (memo.payload.category ≠ "")
      (service.writeCategory now memo "" .clear)) s () t) (memoID : Int) :
    t.memos.find? memoID = (s.memos.find? memoID).map fun row =>
      if row.id ∈ l.map (·.id) then withCategory row "" else row := by
  induction l generalizing s with
  | nil =>
      rw [ends_forEach_nil.mp h]
      exact (congrFun Option.map_id _).symm
  | cons memo l ih =>
      obtain ⟨u, first, rest⟩ := ends_forEach_cons.mp h
      rw [List.map_cons, List.nodup_cons] at distinct
      have wrote : Ends (service.writeCategory now memo "" .clear) s () u := by
        rcases ends_onlyIf.mp first with ⟨-, wrote⟩ | ⟨blank, -⟩
        · exact wrote
        · exact absurd blank (by simp [some memo List.mem_cons_self])
      have rows := writeCategory_rows wrote (stored memo List.mem_cons_self)
      have later : ∀ row ∈ l, u.memos.find? row.id = Option.some row := by
        intro row mem
        have apart : row.id ≠ memo.id := fun same =>
          distinct.1 (same ▸ List.mem_map_of_mem (f := (·.id)) mem)
        rw [rows, stored row (List.mem_cons_of_mem _ mem), Option.map_some, if_neg apart]
      rw [ih distinct.2 later (fun row mem => some row (List.mem_cons_of_mem _ mem)) rest, rows,
        Option.map_map]
      refine Option.map_congr fun row _ => ?_
      rw [Function.comp_apply, List.map_cons]
      by_cases own : row.id = memo.id
      · have done : ¬row.id ∈ l.map (·.id) := own ▸ distinct.1
        rw [if_pos own, if_neg (by exact done), if_pos (own ▸ List.mem_cons_self)]
      · rw [if_neg own]
        refine if_congr ?_ rfl rfl
        rw [List.mem_cons, or_iff_right own]

def clearSlugRow (slug : String) (memo : MemoRow) : MemoRow :=
  if String.ofList (trimSpace slug.toList) = "" then memo
  else clearRow (String.ofList (trimSpace slug.toList)) memo

theorem acts_clearMemosInCategory (category : String) :
    Acts (service.clearMemosInCategory now category) (clearSlugRow category) := by
  intro s _ t h memoID
  unfold APIV1Service.clearMemosInCategory at h
  unfold clearSlugRow
  generalize String.ofList (trimSpace category.toList) = category at h ⊢
  dsimp only at h
  split_ifs at h ⊢ with blank
  · rw [(ends_pure.mp h).2]
    exact (congrFun Option.map_id _).symm
  · obtain ⟨memos, between, read, h⟩ := ends_bind.mp h
    obtain ⟨found, rfl⟩ := ends_check.mp read
    obtain rfl : memosInCategory s category = memos := Except.ok.inj found
    rw [clear_rows memosInCategory_ids
      (fun memo mem => Keyed.Table.find?_eq_some.mpr ⟨(mem_memosInCategory.mp mem).1, rfl⟩)
      (fun memo mem => (mem_memosInCategory.mp mem).2.2 ▸ blank) h]
    refine Option.map_congr fun row found => if_congr ?_ rfl rfl
    have there := (Keyed.Table.find?_eq_some.mp found).1
    constructor
    · intro listed
      obtain ⟨memo, mem, same⟩ := List.mem_map.mp listed
      obtain ⟨stored, live, category⟩ := mem_memosInCategory.mp mem
      rw [← Keyed.Table.eq_of_key stored there same]
      exact ⟨live, category⟩
    · intro here
      exact List.mem_map_of_mem (mem_memosInCategory.mpr ⟨there, here⟩)

variable (service) in
def migrateRow (category : InstanceMemoCategoryEntry) (memo : MemoRow) : MemoRow :=
  category.memoNames.foldl (fun memo memoName =>
    match service.ExtractMemoUIDFromName memoName with
    | .error _ => memo
    | .ok memoUID => assignRow memoUID category.slug memo) memo

theorem acts_migrateMemoNames (category : InstanceMemoCategoryEntry) :
    Acts (service.migrateMemoNames now category) (migrateRow service category) := by
  refine Acts.forEach (g := fun memoName memo =>
    match service.ExtractMemoUIDFromName memoName with
    | .error _ => memo
    | .ok memoUID => assignRow memoUID category.slug memo) (fun memoName => ?_) _
  cases service.ExtractMemoUIDFromName memoName with
  | error _ => exact acts_pure ()
  | ok memoUID => exact acts_setMemoCategoryByUID memoUID category.slug

/-! ### What all the steps do to a memo -/

def Names (service : APIV1Service) (category : InstanceMemoCategoryEntry) (memo : MemoRow) : Prop :=
  ∃ memoName ∈ category.memoNames, service.ExtractMemoUIDFromName memoName = .ok memo.uid

/-- Steps each of which sets the category or leaves it: the last that sets it counts. -/
theorem foldl_category {α : Type} {f : α → MemoRow → MemoRow} (sets : α → Prop) {value : α → String}
    {memo : MemoRow}
    (hit : ∀ a category, sets a → f a (withCategory memo category) = withCategory memo (value a))
    (miss : ∀ a category, ¬sets a → f a (withCategory memo category) = withCategory memo category)
    (l : List α) (category : String) :
    (∃ a ∈ l, sets a ∧
        l.foldl (fun memo a => f a memo) (withCategory memo category) = withCategory memo (value a)) ∨
      (∀ a ∈ l, ¬sets a) ∧
        l.foldl (fun memo a => f a memo) (withCategory memo category) = withCategory memo category := by
  induction l generalizing category with
  | nil => exact .inr ⟨fun _ mem => absurd mem List.not_mem_nil, rfl⟩
  | cons a l ih =>
      rw [List.foldl_cons]
      by_cases here : sets a
      · rw [hit a category here]
        rcases ih (value a) with ⟨b, mem, later, eq⟩ | ⟨-, eq⟩
        · exact .inl ⟨b, List.mem_cons_of_mem _ mem, later, eq⟩
        · exact .inl ⟨a, List.mem_cons_self, here, eq⟩
      · rw [miss a category here]
        rcases ih category with ⟨b, mem, later, eq⟩ | ⟨none, eq⟩
        · exact .inl ⟨b, List.mem_cons_of_mem _ mem, later, eq⟩
        · refine .inr ⟨fun b mem => ?_, eq⟩
          rcases List.mem_cons.mp mem with rfl | mem
          · exact here
          · exact none b mem

section Rows

variable {memo : MemoRow} {old next : List InstanceMemoCategoryEntry}

theorem migrateRow_eq (live : memo.deletedTs = none) (entry : InstanceMemoCategoryEntry)
    (category : String) :
    (Names service entry memo →
        migrateRow service entry (withCategory memo category) = withCategory memo entry.slug) ∧
      (¬Names service entry memo →
        migrateRow service entry (withCategory memo category) = withCategory memo category) := by
  have each := foldl_category (fun memoName => service.ExtractMemoUIDFromName memoName = .ok memo.uid)
    (f := fun memoName memo =>
      match service.ExtractMemoUIDFromName memoName with
      | .error _ => memo
      | .ok memoUID => assignRow memoUID entry.slug memo)
    (fun memoName category named => by
      rw [named]
      exact if_pos ⟨live, rfl⟩)
    (fun memoName category other => by
      cases found : service.ExtractMemoUIDFromName memoName with
      | error _ => rfl
      | ok memoUID =>
          refine if_neg fun both => other ?_
          rw [found, ← both.2]
          rfl)
    entry.memoNames category
  constructor
  · intro named
    rcases each with ⟨_, _, _, eq⟩ | ⟨none, -⟩
    · exact eq
    · obtain ⟨memoName, mem, found⟩ := named
      exact absurd found (none memoName mem)
  · intro unnamed
    rcases each with ⟨memoName, mem, found, -⟩ | ⟨-, eq⟩
    · exact absurd ⟨memoName, mem, found⟩ unnamed
    · exact eq

/-- What the entries of a list that are read do to a memo. -/
theorem migrateRows_eq (live : memo.deletedTs = none) (reads : InstanceMemoCategoryEntry → Bool)
    (entries : List InstanceMemoCategoryEntry) (category : String) :
    (∃ entry ∈ entries, (reads entry = true ∧ Names service entry memo) ∧
        entries.foldl (fun memo entry =>
          (if reads entry then migrateRow service entry else id) memo) (withCategory memo category)
          = withCategory memo entry.slug) ∨
      (∀ entry ∈ entries, ¬(reads entry = true ∧ Names service entry memo)) ∧
        entries.foldl (fun memo entry =>
          (if reads entry then migrateRow service entry else id) memo) (withCategory memo category)
          = withCategory memo category := by
  refine foldl_category _ (f := fun entry => if reads entry then migrateRow service entry else id)
    (fun entry category named => ?_) (fun entry category unnamed => ?_) _ _
  · rw [if_pos named.1]
    exact (migrateRow_eq live entry category).1 named.2
  · by_cases read : reads entry = true
    · rw [if_pos read]
      exact (migrateRow_eq live entry category).2 fun named => unnamed ⟨read, named⟩
    · rw [if_neg read]
      rfl

/-- The category that goes is the one of a slug that is gone. -/
theorem clearRows_eq (live : memo.deletedTs = none) (gone : InstanceMemoCategoryEntry → Bool)
    (category : String) :
    ∃ category', old.foldl (fun memo entry =>
        (if gone entry then clearSlugRow entry.slug else id) memo) (withCategory memo category)
          = withCategory memo category' ∧
      (category' = category ∧ (∀ entry ∈ old, gone entry = true →
          String.ofList (trimSpace entry.slug.toList) = category → category = "") ∨
        category' = "" ∧ ∃ entry ∈ old, gone entry = true ∧
          String.ofList (trimSpace entry.slug.toList) = category) := by
  induction old generalizing category with
  | nil => exact ⟨category, rfl, .inl ⟨rfl, fun _ mem => absurd mem List.not_mem_nil⟩⟩
  | cons entry rest ih =>
      rw [List.foldl_cons]
      by_cases hit : gone entry = true ∧
          String.ofList (trimSpace entry.slug.toList) = category ∧ category ≠ ""
      · obtain ⟨isGone, same, some⟩ := hit
        have cleared : (if gone entry then clearSlugRow entry.slug else id)
            (withCategory memo category) = withCategory memo "" := by
          rw [if_pos isGone, clearSlugRow, same, if_neg some]
          exact if_pos ⟨live, rfl⟩
        rw [cleared]
        obtain ⟨category', eq, left⟩ := ih ""
        refine ⟨category', eq, .inr ⟨?_, entry, List.mem_cons_self, isGone, same⟩⟩
        rcases left with ⟨stays, -⟩ | ⟨stays, -⟩
        · exact stays
        · exact stays
      · have kept : (if gone entry then clearSlugRow entry.slug else id)
            (withCategory memo category) = withCategory memo category := by
          by_cases isGone : gone entry = true
          · rw [if_pos isGone, clearSlugRow]
            split_ifs with blank
            · rfl
            · refine if_neg fun both => hit ⟨isGone, both.2.symm, ?_⟩
              have same : category = _ := both.2
              rw [same]
              exact blank
          · rw [if_neg isGone]
            rfl
        rw [kept]
        obtain ⟨category', eq, left⟩ := ih category
        refine ⟨category', eq, ?_⟩
        rcases left with ⟨same, free⟩ | ⟨cleared, other, mem, isGone, same⟩
        · refine .inl ⟨same, fun other mem isGone same => ?_⟩
          rcases List.mem_cons.mp mem with rfl | mem
          · by_contra some
            exact hit ⟨isGone, same, some⟩
          · exact free other mem isGone same
        · exact .inr ⟨cleared, other, List.mem_cons_of_mem _ mem, isGone, same⟩

end Rows

/-! ### The whole update -/

variable (service) in
def prepareRow (old next : List InstanceMemoCategoryEntry) (memo : MemoRow) : MemoRow :=
  let cleared := old.foldl (fun memo entry =>
    (if !(categorySlugSet next).contains entry.slug then clearSlugRow entry.slug else id) memo) memo
  let named := next.foldl (fun memo entry =>
    (if true then migrateRow service entry else id) memo) cleared
  old.foldl (fun memo entry =>
    (if (categorySlugSet next).contains entry.slug then migrateRow service entry else id) memo) named

theorem prepareMemoCategories_ends {json : CategoryJson} {existingJSON nextJSON result : String}
    (h : Ends (service.prepareMemoCategoriesForGeneralUpdate now json existingJSON nextJSON)
      s result t) :
    ∃ old next, json.parse existingJSON = .ok old ∧ json.parse nextJSON = .ok next ∧
      result = json.encode (sanitizeInstanceMemoCategories next) ∧
      ∀ memoID, t.memos.find? memoID = (s.memos.find? memoID).map (prepareRow service old next) := by
  obtain ⟨old, s₁, read, h⟩ := ends_bind.mp h
  obtain ⟨readsOld, rfl⟩ := ends_check.mp read
  obtain ⟨next, s₂, read, h⟩ := ends_bind.mp h
  obtain ⟨readsNext, rfl⟩ := ends_check.mp read
  obtain ⟨_, cleared, clears, h⟩ := ends_bind.mp h
  obtain ⟨_, named, names, h⟩ := ends_bind.mp h
  obtain ⟨_, kept, keeps, h⟩ := ends_bind.mp h
  obtain ⟨same, rfl⟩ := ends_pure.mp h
  refine ⟨old, next, readsOld, readsNext, same.symm, fun memoID => ?_⟩
  have first := Acts.forEach (fun entry : InstanceMemoCategoryEntry =>
    (acts_clearMemosInCategory entry.slug).onlyIf
      (!(categorySlugSet next).contains entry.slug)) old _ _ _ clears memoID
  have second := Acts.forEach (fun entry => acts_migrateMemoNames entry) next _ _ _ names memoID
  have third := Acts.forEach (fun entry : InstanceMemoCategoryEntry =>
    (acts_migrateMemoNames entry).onlyIf
      ((categorySlugSet next).contains entry.slug)) old _ _ _ keeps memoID
  rw [third, second, first, Option.map_map, Option.map_map]
  rfl

def slugs (entries : List InstanceMemoCategoryEntry) : List String := entries.map (·.slug)

def Trimmed (entries : List InstanceMemoCategoryEntry) : Prop :=
  ∀ entry ∈ entries, trimSpace entry.slug.toList = entry.slug.toList

theorem contains_categorySlugSet {entries : List InstanceMemoCategoryEntry} {slug : String} :
    (categorySlugSet entries).contains slug = true ↔ slug ≠ "" ∧ slug ∈ slugs entries := by
  unfold categorySlugSet
  rw [List.contains_iff_mem, List.mem_filter, decide_eq_true_eq]
  exact and_comm

theorem toList_eq_nil_iff {slug : String} : slug.toList = [] ↔ slug = "" := by
  rw [← String.toList_inj]
  rfl

theorem mem_slugs_sanitize {entries : List InstanceMemoCategoryEntry} (trimmed : Trimmed entries)
    {slug : String} : slug ∈ slugs (sanitizeInstanceMemoCategories entries) ↔
      slug ≠ "" ∧ slug ∈ slugs entries := by
  unfold slugs sanitizeInstanceMemoCategories
  rw [List.map_filterMap, List.mem_filterMap, List.mem_map]
  constructor
  · rintro ⟨entry, mem, same⟩
    dsimp only at same
    rw [trimmed entry mem] at same
    split_ifs at same with blank
    · cases same
    · rw [Option.map_some, Option.some_inj, String.ofList_toList] at same
      rw [toList_eq_nil_iff, same] at blank
      exact ⟨blank, entry, mem, same⟩
  · rintro ⟨some, entry, mem, same⟩
    refine ⟨entry, mem, ?_⟩
    dsimp only
    rw [trimmed entry mem, same, if_neg (toList_eq_nil_iff.not.mpr some), Option.map_some,
      String.ofList_toList]

/-- A memo before and after the update, of which the lists are those before, submitted and
stored. -/
structure Recategorised (service : APIV1Service)
    (old next stored : List InstanceMemoCategoryEntry) (memo memo' : MemoRow) : Prop where
  same : memo' = withCategory memo memo'.payload.category
  trashed : memo.deletedTs ≠ none → memo' = memo
  placed : memo.deletedTs = none →
    (memo.payload.category = "" ∨ memo.payload.category ∈ slugs old ∨
      memo.payload.category ∈ slugs next ∨ (∃ entry ∈ next, Names service entry memo) ∨
      ∃ entry ∈ old, entry.slug ∈ slugs stored ∧ Names service entry memo) →
    memo'.payload.category = "" ∨ memo'.payload.category ∈ slugs stored
  stays : memo.deletedTs = none → (∀ entry ∈ old ++ next, ¬Names service entry memo) →
    memo.payload.category ∈ slugs stored ∨ memo.payload.category ∉ slugs old →
    memo'.payload.category = memo.payload.category
  named : memo.deletedTs = none →
    (∃ entry ∈ next, entry.slug ∈ slugs stored ∧ Names service entry memo) →
    (∀ entry ∈ old, entry.slug ∈ slugs stored → ¬Names service entry memo) →
    ∃ entry ∈ next, Names service entry memo ∧ memo'.payload.category = entry.slug

section Rows

variable {memo : MemoRow} {old next : List InstanceMemoCategoryEntry}

theorem foldl_same {α : Type} {f : α → MemoRow → MemoRow} (l : List α) (same : ∀ a, f a memo = memo) :
    l.foldl (fun memo a => f a memo) memo = memo := by
  induction l with
  | nil => rfl
  | cons a l ih => rw [List.foldl_cons, same, ih]

theorem prepareRow_trashed (trashed : memo.deletedTs ≠ none) :
    prepareRow service old next memo = memo := by
  have cleared : ∀ entry : InstanceMemoCategoryEntry, clearSlugRow entry.slug memo = memo := by
    intro entry
    unfold clearSlugRow
    split_ifs
    · rfl
    · exact if_neg fun both => trashed both.1
  have migrated : ∀ entry, migrateRow service entry memo = memo := by
    intro entry
    refine foldl_same entry.memoNames fun memoName => ?_
    cases service.ExtractMemoUIDFromName memoName with
    | error _ => rfl
    | ok memoUID => exact if_neg fun both => trashed both.1
  have first := foldl_same
    (f := fun entry : InstanceMemoCategoryEntry =>
      if !(categorySlugSet next).contains entry.slug then clearSlugRow entry.slug else id)
    old fun entry => by
      split_ifs
      · exact cleared entry
      · rfl
  have second := foldl_same (f := fun entry =>
      if true then migrateRow service entry else id) next fun entry => by
    rw [if_pos rfl, migrated]
  have third := foldl_same (f := fun entry =>
      if (categorySlugSet next).contains entry.slug then migrateRow service entry else id)
    old fun entry => by
      split_ifs
      · exact migrated entry
      · rfl
  show List.foldl _ (List.foldl _ (List.foldl _ memo old) next) old = memo
  rw [first, second, third]

/-- A memo that is not in the trash ends in the category of the last entry that names it. -/
theorem prepareRow_live (live : memo.deletedTs = none) :
    ∃ category category' final, prepareRow service old next memo = withCategory memo final ∧
      (category = memo.payload.category ∧
          (∀ entry ∈ old, (!(categorySlugSet next).contains entry.slug) = true →
            String.ofList (trimSpace entry.slug.toList) = memo.payload.category →
            memo.payload.category = "") ∨
        category = "" ∧ ∃ entry ∈ old, (!(categorySlugSet next).contains entry.slug) = true ∧
          String.ofList (trimSpace entry.slug.toList) = memo.payload.category) ∧
      ((∃ entry ∈ next, Names service entry memo ∧ category' = entry.slug) ∨
        (∀ entry ∈ next, ¬Names service entry memo) ∧ category' = category) ∧
      ((∃ entry ∈ old, ((categorySlugSet next).contains entry.slug = true ∧
          Names service entry memo) ∧ final = entry.slug) ∨
        (∀ entry ∈ old, ¬((categorySlugSet next).contains entry.slug = true ∧
          Names service entry memo)) ∧ final = category') := by
  obtain ⟨category, cleared, left⟩ := clearRows_eq live
    (fun entry => !(categorySlugSet next).contains entry.slug) memo.payload.category
  rw [withCategory_self] at cleared
  have second : ∃ category', next.foldl (fun memo entry =>
        (if true then migrateRow service entry else id) memo) (withCategory memo category)
          = withCategory memo category' ∧
      ((∃ entry ∈ next, Names service entry memo ∧ category' = entry.slug) ∨
        (∀ entry ∈ next, ¬Names service entry memo) ∧ category' = category) := by
    rcases migrateRows_eq live (fun _ => true) next category with
      ⟨entry, mem, named, eq⟩ | ⟨unnamed, eq⟩
    · exact ⟨_, eq, .inl ⟨entry, mem, named.2, rfl⟩⟩
    · exact ⟨_, eq, .inr ⟨fun entry mem named => unnamed entry mem ⟨rfl, named⟩, rfl⟩⟩
  obtain ⟨category', named, migrated⟩ := second
  have whole : prepareRow service old next memo = old.foldl (fun memo entry =>
      (if (categorySlugSet next).contains entry.slug then migrateRow service entry else id) memo)
        (withCategory memo category') := by
    show List.foldl _ (List.foldl _ (List.foldl _ memo old) next) old = _
    rw [cleared, named]
  rcases migrateRows_eq live
      (fun entry => (categorySlugSet next).contains entry.slug) old category' with
    ⟨entry, mem, kept, eq⟩ | ⟨unnamed, eq⟩
  · exact ⟨category, category', _, whole.trans eq, left, migrated, .inl ⟨entry, mem, kept, rfl⟩⟩
  · exact ⟨category, category', _, whole.trans eq, left, migrated, .inr ⟨unnamed, rfl⟩⟩

theorem prepareRow_recategorised (trimmedOld : Trimmed old) (trimmedNext : Trimmed next) :
    Recategorised service old next (sanitizeInstanceMemoCategories next) memo
      (prepareRow service old next memo) := by
  by_cases live : memo.deletedTs = none
  · obtain ⟨category, category', final, row, left, migrated, kept⟩ :=
      prepareRow_live live
    have stored : ∀ {slug}, (categorySlugSet next).contains slug = true ↔
        slug ∈ slugs (sanitizeInstanceMemoCategories next) :=
      contains_categorySlugSet.trans (mem_slugs_sanitize trimmedNext).symm
    have submitted : ∀ {slug}, slug ∈ slugs next →
        slug = "" ∨ slug ∈ slugs (sanitizeInstanceMemoCategories next) := fun {slug} mem =>
      or_iff_not_imp_left.mpr fun some => (mem_slugs_sanitize trimmedNext).mpr ⟨some, mem⟩
    have slug_eq : ∀ entry ∈ old, String.ofList (trimSpace entry.slug.toList) = entry.slug := by
      intro entry mem
      rw [trimmedOld entry mem, String.ofList_toList]
    rw [row]
    refine ⟨rfl, fun trashed => absurd live trashed, fun _ known => ?_,
      fun _ unnamed own => ?_, fun _ named free => ?_⟩
    · show final = "" ∨ final ∈ _
      rcases kept with ⟨entry, _, both, rfl⟩ | ⟨unnamedOld, rfl⟩
      · exact .inr (stored.mp both.1)
      rcases migrated with ⟨entry, mem, _, rfl⟩ | ⟨unnamedNext, rfl⟩
      · exact submitted (List.mem_map_of_mem (f := (·.slug)) mem)
      rcases left with ⟨rfl, free⟩ | ⟨rfl, _⟩
      · rcases known with blank | mem | mem | ⟨entry, mem, named⟩ | ⟨entry, mem, keep, named⟩
        · exact .inl blank
        · obtain ⟨entry, mem, same⟩ := List.mem_map.mp mem
          by_cases keep : (categorySlugSet next).contains entry.slug = true
          · exact .inr (same ▸ stored.mp keep)
          · exact .inl (free entry mem (by simpa using keep) ((slug_eq entry mem).trans same))
        · exact submitted mem
        · exact absurd named (unnamedNext entry mem)
        · exact absurd ⟨stored.mpr keep, named⟩ (unnamedOld entry mem)
      · exact .inl rfl
    · show final = memo.payload.category
      rcases kept with ⟨entry, mem, both, _⟩ | ⟨_, rfl⟩
      · exact absurd both.2 (unnamed entry (List.mem_append_left _ mem))
      rcases migrated with ⟨entry, mem, named, _⟩ | ⟨_, rfl⟩
      · exact absurd named (unnamed entry (List.mem_append_right _ mem))
      rcases left with ⟨same, _⟩ | ⟨_, entry, mem, gone, same⟩
      · exact same
      · rw [slug_eq entry mem] at same
        rcases own with keep | other
        · rw [← same, ← stored] at keep
          rw [keep] at gone
          cases gone
        · exact absurd (same ▸ List.mem_map_of_mem (f := (·.slug)) mem) other
    · show ∃ entry ∈ next, Names service entry memo ∧ final = entry.slug
      rcases kept with ⟨entry, mem, both, _⟩ | ⟨_, rfl⟩
      · exact absurd both.2 (free entry mem (stored.mp both.1))
      rcases migrated with ⟨entry, mem, names, same⟩ | ⟨unnamed, _⟩
      · exact ⟨entry, mem, names, same⟩
      · obtain ⟨entry, mem, _, names⟩ := named
        exact absurd names (unnamed entry mem)
  · rw [prepareRow_trashed live]
    exact ⟨rfl, fun _ => rfl, fun h => absurd h live, fun h => absurd h live, fun h => absurd h live⟩

end Rows

/-! ### When it stops on the way -/

section Stops

variable {entries : List InstanceMemoCategoryEntry}

/-- A memo keeps its category, loses it or is in the one of an entry that names it. -/
def MayBecome (service : APIV1Service) (entries : List InstanceMemoCategoryEntry)
    (memo memo' : MemoRow) : Prop :=
  memo' = withCategory memo memo'.payload.category ∧
    (memo'.payload.category = memo.payload.category ∨ memo'.payload.category = "" ∨
      ∃ entry ∈ entries, Names service entry memo ∧ memo'.payload.category = entry.slug)

theorem MayBecome.refl (memo : MemoRow) : MayBecome service entries memo memo := ⟨rfl, .inl rfl⟩

theorem MayBecome.trans {a b c : MemoRow} (first : MayBecome service entries a b)
    (second : MayBecome service entries b c) : MayBecome service entries a c := by
  obtain ⟨same, first⟩ := first
  obtain ⟨same', second⟩ := second
  have uid : b.uid = a.uid := by
    rw [same]
    rfl
  refine ⟨?_, ?_⟩
  · rw [same', same]
    rfl
  · rcases second with stays | blank | ⟨entry, mem, named, set⟩
    · rw [stays]
      exact first
    · exact .inr (.inl blank)
    · refine .inr (.inr ⟨entry, mem, ?_, set⟩)
      unfold Names at named ⊢
      rw [uid] at named
      exact named

/-- The memos are the same ones, each with a category it may have. -/
def MayStop (service : APIV1Service) (entries : List InstanceMemoCategoryEntry) (s t : State) :
    Prop :=
  ∃ g, (∀ memo, MayBecome service entries memo (g memo)) ∧
    ∀ id, t.memos.find? id = (s.memos.find? id).map g

instance : IsPreorder State (MayStop service entries) where
  refl _ := ⟨id, .refl, fun _ => (congrFun Option.map_id _).symm⟩
  trans _ _ _ first second := by
    obtain ⟨g, may, rows⟩ := first
    obtain ⟨g', may', rows'⟩ := second
    refine ⟨g' ∘ g, fun memo => (may memo).trans (may' _), fun memoID => ?_⟩
    rw [rows', rows, Option.map_map]

theorem mayBecome_clearSlugRow (slug : String) (memo : MemoRow) :
    MayBecome service entries memo (clearSlugRow slug memo) := by
  unfold clearSlugRow clearRow
  split_ifs
  · exact .refl memo
  · exact ⟨rfl, .inr (.inl rfl)⟩
  · exact .refl memo

theorem keeps_setMemoCategoryByUID {entry : InstanceMemoCategoryEntry} (mem : entry ∈ entries)
    {memoName memoUID : String} (named : memoName ∈ entry.memoNames)
    (reads : service.ExtractMemoUIDFromName memoName = .ok memoUID) :
    Keeps (MayStop service entries) (service.setMemoCategoryByUID now memoUID entry.slug) := by
  refine ⟨fun s x t ends => ⟨_, fun memo => ?_, acts_setMemoCategoryByUID _ _ s x t ends⟩, ?_⟩
  · unfold assignRow
    split_ifs with here
    · exact ⟨rfl, .inr (.inr ⟨entry, mem, ⟨memoName, named, here.2 ▸ reads⟩, rfl⟩)⟩
    · exact .refl memo
  · -- There is nothing to be cut off but the one write.
    intro s w t cut
    rcases cut_bind.mp cut with cut | ⟨memo, between, read, cut⟩
    · exact absurd cut not_cut_check
    · obtain ⟨found, rfl⟩ := ends_check.mp read
      obtain rfl : getMemo s memoUID = memo := Except.ok.inj found
      cases found : getMemo s memoUID with
      | none =>
          rw [found] at cut
          exact absurd cut not_cut_pure
      | some memo =>
          rw [found] at cut
          rw [(cut_write.mp (cut_onlyIf.mp cut).2).2]
          exact refl_of _ s

theorem keeps_clearMemosInCategory (category : String) :
    Keeps (MayStop service entries) (service.clearMemosInCategory now category) := by
  refine ⟨fun s x t ends => ⟨_, fun memo => mayBecome_clearSlugRow category memo,
    acts_clearMemosInCategory _ s x t ends⟩, ?_⟩
  intro s w t cut
  unfold APIV1Service.clearMemosInCategory at cut
  generalize String.ofList (trimSpace category.toList) = category at cut
  dsimp only at cut
  split_ifs at cut with blank
  · exact absurd cut not_cut_pure
  · rcases cut_bind.mp cut with cut | ⟨memos, between, read, cut⟩
    · exact absurd cut not_cut_check
    · obtain ⟨found, rfl⟩ := ends_check.mp read
      obtain rfl : memosInCategory s category = memos := Except.ok.inj found
      obtain ⟨before, memo, after, u, whole, ended, cut⟩ := cut_forEach cut
      have part : ∀ memo ∈ before, memo ∈ memosInCategory s category := by
        intro memo mem
        rw [whole]
        exact List.mem_append_left _ mem
      have distinct : (before.map (·.id)).Nodup := by
        have all := @memosInCategory_ids s category
        rw [whole, List.map_append] at all
        exact (List.nodup_append.mp all).1
      obtain rfl : t = u := (cut_write.mp (cut_onlyIf.mp cut).2).2
      refine ⟨_, fun memo => ?_, clear_rows distinct
        (fun memo mem => Keyed.Table.find?_eq_some.mpr ⟨(mem_memosInCategory.mp (part memo mem)).1, rfl⟩)
        (fun memo mem => (mem_memosInCategory.mp (part memo mem)).2.2 ▸ blank) ended⟩
      split_ifs
      · exact ⟨rfl, .inr (.inl rfl)⟩
      · exact .refl memo

theorem keeps_migrateMemoNames {entry : InstanceMemoCategoryEntry} (mem : entry ∈ entries) :
    Keeps (MayStop service entries) (service.migrateMemoNames now entry) := by
  refine Keeps.forEach_mem fun memoName named => ?_
  cases reads : service.ExtractMemoUIDFromName memoName with
  | error _ => exact keeps_pure
  | ok memoUID => exact keeps_setMemoCategoryByUID mem named reads

theorem failsAtWrite_setMemoCategoryByUID (memoUID category : String) :
    FailsAtWrite (service.setMemoCategoryByUID now memoUID category) := by
  refine failsAtWrite_check.bind fun memo => ?_
  cases memo with
  | none => exact failsAtWrite_pure
  | some memo => exact failsAtWrite_write.onlyIf

theorem failsAtWrite_clearMemosInCategory (category : String) :
    FailsAtWrite (service.clearMemosInCategory now category) := by
  unfold APIV1Service.clearMemosInCategory
  dsimp only
  split_ifs
  · exact failsAtWrite_pure
  · exact failsAtWrite_check.bind fun memos =>
      FailsAtWrite.forEach memos fun memo => failsAtWrite_write.onlyIf

theorem failsAtWrite_migrateMemoNames (entry : InstanceMemoCategoryEntry) :
    FailsAtWrite (service.migrateMemoNames now entry) := by
  refine FailsAtWrite.forEach _ fun memoName => ?_
  cases service.ExtractMemoUIDFromName memoName with
  | error _ => exact failsAtWrite_pure
  | ok memoUID => exact failsAtWrite_setMemoCategoryByUID memoUID entry.slug

variable (service now) in
def recategorise (json : CategoryJson) (old next : List InstanceMemoCategoryEntry) :
    CategoryProcess String := do
  Process.forEach old fun entry =>
    Process.onlyIf (!(categorySlugSet next).contains entry.slug)
      (service.clearMemosInCategory now entry.slug)
  Process.forEach next (service.migrateMemoNames now)
  Process.forEach old fun entry =>
    Process.onlyIf ((categorySlugSet next).contains entry.slug) (service.migrateMemoNames now entry)
  return json.encode (sanitizeInstanceMemoCategories next)

variable {json : CategoryJson} {existingJSON nextJSON : String}
  {old next : List InstanceMemoCategoryEntry}

theorem prepareMemoCategories_eq :
    service.prepareMemoCategoriesForGeneralUpdate now json existingJSON nextJSON = (do
      let old ← Process.check fun _ => json.parse existingJSON
      let next ← Process.check fun _ => json.parse nextJSON
      recategorise service now json old next) := rfl

theorem keeps_recategorise :
    Keeps (MayStop service (old ++ next)) (recategorise service now json old next) := by
  have fromOld : ∀ entry ∈ old, entry ∈ old ++ next := fun _ => List.mem_append_left _
  have fromNext : ∀ entry ∈ next, entry ∈ old ++ next := fun _ => List.mem_append_right _
  refine Keeps.bind ?_ fun _ => Keeps.bind ?_ fun _ => Keeps.bind ?_ fun _ => keeps_pure
  · exact Keeps.forEach _ fun entry => (keeps_clearMemosInCategory entry.slug).onlyIf
  · exact Keeps.forEach_mem fun entry mem => keeps_migrateMemoNames (fromNext entry mem)
  · exact Keeps.forEach_mem fun entry mem => (keeps_migrateMemoNames (fromOld entry mem)).onlyIf

theorem failsAtWrite_recategorise : FailsAtWrite (recategorise service now json old next) := by
  refine FailsAtWrite.bind ?_ fun _ => FailsAtWrite.bind ?_ fun _ => FailsAtWrite.bind ?_ fun _ =>
    failsAtWrite_pure
  · exact FailsAtWrite.forEach _ fun entry => (failsAtWrite_clearMemosInCategory entry.slug).onlyIf
  · exact FailsAtWrite.forEach _ failsAtWrite_migrateMemoNames
  · exact FailsAtWrite.forEach _ fun entry => (failsAtWrite_migrateMemoNames entry).onlyIf

/-- With lists that can be read the store is all that can fail. -/
theorem prepareMemoCategories_stops (readsOld : json.parse existingJSON = .ok old)
    (readsNext : json.parse nextJSON = .ok next)
    (stops : (∃ w, Cut (service.prepareMemoCategoriesForGeneralUpdate now json existingJSON nextJSON)
        s w t) ∨
      ∃ err, Fails (service.prepareMemoCategoriesForGeneralUpdate now json existingJSON nextJSON)
        s err t) :
    MayStop service (old ++ next) s t := by
  rw [prepareMemoCategories_eq] at stops
  have cut : ∃ w, Cut (recategorise service now json old next) s w t := by
    rcases stops with ⟨w, cut⟩ | ⟨err, fails⟩
    · rcases cut_bind.mp cut with cut | ⟨old', _, read, cut⟩
      · exact absurd cut not_cut_check
      obtain ⟨found, rfl⟩ := ends_check.mp read
      obtain rfl : old = old' := Except.ok.inj (readsOld.symm.trans found)
      rcases cut_bind.mp cut with cut | ⟨next', _, read, cut⟩
      · exact absurd cut not_cut_check
      obtain ⟨found, rfl⟩ := ends_check.mp read
      obtain rfl : next = next' := Except.ok.inj (readsNext.symm.trans found)
      exact ⟨w, cut⟩
    · rcases fails_bind.mp fails with fails | ⟨old', _, read, fails⟩
      · cases readsOld.symm.trans (fails_check.mp fails).1
      obtain ⟨found, rfl⟩ := ends_check.mp read
      obtain rfl : old = old' := Except.ok.inj (readsOld.symm.trans found)
      rcases fails_bind.mp fails with fails | ⟨next', _, read, fails⟩
      · cases readsNext.symm.trans (fails_check.mp fails).1
      obtain ⟨found, rfl⟩ := ends_check.mp read
      obtain rfl : next = next' := Except.ok.inj (readsNext.symm.trans found)
      exact failsAtWrite_recategorise s err t fails
  obtain ⟨w, cut⟩ := cut
  exact keeps_recategorise.cut s w t cut

theorem prepareMemoCategories_unread {err : CategoryError}
    (unread : json.parse existingJSON = .error err ∨ json.parse nextJSON = .error err) :
    ((service.prepareMemoCategoriesForGeneralUpdate now json existingJSON nextJSON) s).last = s ∧
      ∀ w t, ¬Cut (service.prepareMemoCategoriesForGeneralUpdate now json existingJSON nextJSON)
        s w t := by
  rw [prepareMemoCategories_eq]
  have failed : ∃ err', Fails (do
      let old ← Process.check fun _ => json.parse existingJSON
      let next ← Process.check fun _ => json.parse nextJSON
      recategorise service now json old next) s err' s := by
    cases readsOld : json.parse existingJSON with
    | error err' => exact ⟨err', fails_bind.mpr (.inl (fails_check.mpr ⟨rfl, rfl⟩))⟩
    | ok old =>
        have readsNext := unread.resolve_left fun h => nomatch readsOld.symm.trans h
        refine ⟨err, fails_bind.mpr (.inr ⟨old, s, ends_check.mpr ⟨rfl, rfl⟩, ?_⟩)⟩
        exact fails_bind.mpr (.inl (fails_check.mpr ⟨readsNext, rfl⟩))
  obtain ⟨_, _, last⟩ := failed
  refine ⟨last, fun w t cut => ?_⟩
  rcases cut_bind.mp cut with cut | ⟨old, _, readOld, cut⟩
  · exact not_cut_check cut
  rcases cut_bind.mp cut with cut | ⟨next, _, readNext, cut⟩
  · exact not_cut_check cut
  rcases unread with unread | unread
  · cases unread.symm.trans (ends_check.mp readOld).1
  · cases unread.symm.trans (ends_check.mp readNext).1

end Stops

/-- An update of the list.  Where no slug has white space around it and it succeeds, a memo
outside the trash whose category was empty, in one of the lists or given to it ends without a
category or in one that is stored; a memo that no entry names keeps a category that is stored;
and one that the submitted list names in a stored category, and none of the kept old entries
does, ends in a submitted entry that names it.  A list that cannot be read changes nothing.
Stopped by the store, it has left each memo with its category, without one, or with one of an
entry that names it. -/
theorem memo_categories_updated (service : APIV1Service) (now : Int) (json : CategoryJson)
    (s : State) (existingJSON nextJSON : String) :
    (∀ result t,
      Ends (service.prepareMemoCategoriesForGeneralUpdate now json existingJSON nextJSON) s result t →
      ∃ old next, json.parse existingJSON = .ok old ∧ json.parse nextJSON = .ok next ∧
        result = json.encode (sanitizeInstanceMemoCategories next) ∧
        (Trimmed old → Trimmed next → ∀ id,
          (s.memos.find? id = none → t.memos.find? id = none) ∧
          ∀ memo, s.memos.find? id = some memo → ∃ memo', t.memos.find? id = some memo' ∧
            Recategorised service old next (sanitizeInstanceMemoCategories next) memo memo')) ∧
    (∀ err, json.parse existingJSON = .error err ∨ json.parse nextJSON = .error err →
      ((service.prepareMemoCategoriesForGeneralUpdate now json existingJSON nextJSON) s).last = s ∧
      ∀ w t,
        ¬Cut (service.prepareMemoCategoriesForGeneralUpdate now json existingJSON nextJSON) s w t) ∧
    ∀ old next t, json.parse existingJSON = .ok old → json.parse nextJSON = .ok next →
      ((∃ w, Cut (service.prepareMemoCategoriesForGeneralUpdate now json existingJSON nextJSON)
          s w t) ∨
        ∃ err, Fails (service.prepareMemoCategoriesForGeneralUpdate now json existingJSON nextJSON)
          s err t) →
      MayStop service (old ++ next) s t := by
  refine ⟨fun result t ends => ?_, fun err unread => ?_, fun old next t readsOld readsNext =>
    prepareMemoCategories_stops readsOld readsNext⟩
  · obtain ⟨old, next, readsOld, readsNext, stored, rows⟩ := prepareMemoCategories_ends ends
    refine ⟨old, next, readsOld, readsNext, stored, fun trimmedOld trimmedNext id => ⟨?_, ?_⟩⟩
    · intro none
      rw [rows, none]
      rfl
    · intro memo found
      refine ⟨_, ?_, prepareRow_recategorised trimmedOld trimmedNext⟩
      rw [rows, found]
      rfl
  · exact prepareMemoCategories_unread unread

/-! ### Ada's memos -/

/-- Ada's memo is in a category that went while it was in the trash. -/
def shelvedMemo : MemoRow := { adaMemo with payload := { title := "", category := "drafts" } }

def shelved : State := { adaDatabase with memos := ⟨[shelvedMemo], by decide, by decide⟩ }

def adaNotes : MemoRow := .withDefaults 2 "notes" 1 .Private none

def twoMemos : State := { adaDatabase with memos := ⟨[adaMemo, adaNotes], by decide, by decide⟩ }

def talksText : String :=
  "[\x7b\"slug\":\"talks\",\"title\":\"\","
    ++ "\"memoNames\":[\"memos/plans\",\"memos/notes\"]\x7d]"

def talksJson : CategoryJson where
  unmarshal _ :=
    .ok [{ slug := "talks", access := "", title := "", description := ""
           memoNames := ["memos/plans", "memos/notes"] }]
  marshal _ := "[\x7b\"slug\":\"talks\",\"title\":\"\"\x7d]"

/-- No list has a category, and the memo still has one.  And where the store fails at the second
of two memos, the first has changed. -/
theorem shelved_memo_stays :
    (∃ t memo, Ends (plainService.prepareMemoCategoriesForGeneralUpdate 50 talksJson "" "") shelved
        "[]" t ∧
      talksJson.parse "" = .ok [] ∧ t.memos.find? 1 = some memo ∧ memo.deletedTs = none ∧
      memo.payload.category ≠ "" ∧
      memo.payload.category ∉ slugs (sanitizeInstanceMemoCategories [])) ∧
    ∃ t memo', Cut (plainService.prepareMemoCategoriesForGeneralUpdate 50 talksJson "" talksText)
        twoMemos 2 t ∧
      twoMemos.memos.find? 1 = some adaMemo ∧ t.memos.find? 1 = some memo' ∧
      memo'.payload.category ≠ adaMemo.payload.category := by
  refine ⟨⟨shelved, shelvedMemo, ⟨rfl, rfl⟩, rfl, rfl, rfl, by decide, by decide⟩, ?_⟩
  refine ⟨_, _, .tail _ (.head _), rfl, rfl, ?_⟩
  decide

end Memos.Api

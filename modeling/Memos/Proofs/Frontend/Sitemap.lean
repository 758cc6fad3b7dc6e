/-
The sitemap lists what the API would not list for a visitor.

The two queries agree on the audience, and the sitemap's asks for more: a memo must be
public itself.  After its query the API looks at the payload and at the category, and
leaves out what a Space keeps out of the main feed; the sitemap does none of that.
-/
import Memos.Api.MemoListing
import Memos.Frontend.Sitemap
import Memos.Proofs.Api.MemoAudience
import Memos.Proofs.Api.Paging

namespace Memos.Frontend

open Store Access Fileserver Api

/-! ### The sitemap -/

/-- A memo the query of the sitemap selects. -/
structure Discovered (db : Tables) (memo : MemoRow) : Prop where
  live : memo.deletedTs = none
  normal : memo.rowStatus = .Normal
  isPublic : memo.visibility = .Public
  consistent : consistent db.toState memo = true
  article : hasCommentRelation db memo = false

theorem discovered_iff {db : Tables} {memo : MemoRow} :
    sitemapFind.selects db memo = true ↔ Discovered db memo := by
  have predicate := isTrue_predicate_visitor db.toState true memo
  have scope : newMemoAccessScope none true = ⟨none, true, false⟩ := rfl
  rw [scope] at predicate
  unfold FindMemo.selects sitemapFind
  simp only [List.all_nil, List.isEmpty_nil, Option.all_none, Option.all_some, predicate,
    Bool.true_or, Bool.true_and, Bool.and_true, Bool.false_and, Bool.not_false, Bool.and_eq_true,
    decide_eq_true_eq, Bool.not_eq_true', List.isEmpty_cons, Bool.false_or, List.contains_iff_mem,
    List.mem_singleton]
  constructor
  · rintro ⟨⟨⟨⟨live, normal⟩, isPublic⟩, ⟨⟨-, consistent⟩, -⟩, -⟩, article⟩
    exact ⟨live, normal, isPublic, consistent, article⟩
  · rintro ⟨live, normal, isPublic, consistent, article⟩
    refine ⟨⟨⟨⟨live, normal⟩, isPublic⟩, ⟨⟨?_, consistent⟩, normal⟩, live⟩, article⟩
    rw [openAudience, isPublic]
    rfl

/-- The instance's own part of a location. -/
def memoLocation (instanceURL uid : String) : String :=
  trimRightSlash instanceURL ++ "/memos/" ++ uid

theorem getSitemapXML_eq_ok {db : Tables} {instanceURL : String} {urls : List String}
    (h : getSitemapXML db instanceURL = .ok urls) :
    db.allowsAnonymousAccess = true ∧
      urls = (ListMemos db sitemapFind).map fun memo => memoLocation instanceURL memo.uid := by
  unfold getSitemapXML requirePublicAccess normalizeInstanceURL at h
  cases letIn : db.allowsAnonymousAccess with
  | false =>
      rw [letIn] at h
      cases h
  | true =>
      rw [letIn] at h
      by_cases configured : trimRightSlash instanceURL = ""
      · simp only [configured, if_true] at h
        cases h
      · simp only [configured, if_false] at h
        injection h with h
        exact ⟨rfl, h.symm⟩

theorem mem_sitemap {db : Tables} {instanceURL : String} {urls : List String}
    (h : getSitemapXML db instanceURL = .ok urls) {memo : MemoRow} (there : memo ∈ db.memos) :
    memoLocation instanceURL memo.uid ∈ urls ↔ Discovered db memo := by
  rw [(getSitemapXML_eq_ok h).2, ← discovered_iff, List.mem_map]
  constructor
  · rintro ⟨other, listed, same⟩
    rw [mem_ListMemos] at listed
    rw [← eq_of_uid listed.1 there ((String.append_right_inj _).mp same)]
    exact listed.2
  · intro selected
    exact ⟨memo, mem_ListMemos.mpr ⟨there, selected⟩, rfl⟩

/-! ### The listing of a visitor -/

/-- What `ListMemos` asks for a visitor, who sends neither a filter nor an order. -/
def visitorListing (deniedCategories : List String) : MemoListing where
  find :=
    { rowStatus := some .Normal
      visibilityList := [.Public, .SpaceAudience]
      access := some (newMemoAccessScope none true)
      excludeComments := true
      excludeUnsyncedSpaces := true }
  currentUser := none
  hideAnonymousOwnership := false
  deniedCategories := deniedCategories

theorem prepareListMemos_visitor (service : APIV1Service) (engine : FilterEngine) {db : Tables}
    (letIn : db.allowsAnonymousAccess = true) :
    service.prepareListMemos engine db 0 {} =
      match inaccessibleMemoCategories service.library service.memoCategoriesJson none with
      | .error e => .error ⟨.Internal, "failed to load memo category access: " ++ e⟩
      | .ok deniedCategories => .ok (some (visitorListing deniedCategories)) := by
  have fetched : fetchCurrentUser db.toState 0 = .ok none := rfl
  unfold APIV1Service.prepareListMemos
  rw [resolveMemoAccessScope_fetched fetched, letIn]
  show (refused _ _ (inaccessibleMemoCategories service.library service.memoCategoriesJson none)
    >>= fun deniedCategories => .ok (some (visitorListing deniedCategories))) = _
  cases inaccessibleMemoCategories service.library service.memoCategoriesJson none with
  | error e => rfl
  | ok deniedCategories => rfl

theorem memoVisibleInCollection_visitor (now : Int) (memo : MemoRow) :
    memoVisibleInCollection now memo none
      = !(memo.payload.quarantined || memoIsUnpublished memo now || memo.payload.hidden) := by
  unfold memoVisibleInCollection
  have visitor : isSuperUser none = false := rfl
  rw [visitor, if_neg Bool.false_ne_true]
  cases memo.payload.quarantined <;> cases memoIsUnpublished memo now <;>
    cases memo.payload.hidden <;> rfl

theorem selects_visitorListing {db : Tables} {memo : MemoRow} (discovered : Discovered db memo)
    (deniedCategories : List String) :
    (visitorListing deniedCategories).find.selects db memo = inMainFeed db.toState memo := by
  have predicate := isTrue_predicate_visitor db.toState true memo
  have opens : openAudience db.toState memo = true := by
    rw [openAudience, discovered.isPublic]
    rfl
  rw [opens, discovered.consistent, discovered.normal, discovered.live] at predicate
  unfold FindMemo.selects visitorListing
  simp only [List.all_nil, List.isEmpty_nil, Option.all_none, Option.all_some, predicate,
    discovered.live, discovered.normal, discovered.isPublic, discovered.article]
  simp

/-- Some page of a listing shows a memo if the query selects it and it is visible. -/
theorem exists_page {Row : Type} {chunkSize size : Nat} (positive : 0 < chunkSize)
    (nonempty : 0 < size) {visible : Row → Bool} {rows : List Row} {row : Row} :
    (∃ visibleOffset,
        row ∈ (listMemoCollectionPage chunkSize visible visibleOffset (size + 1) rows).take size) ↔
      row ∈ rows ∧ visible row = true := by
  rw [← List.mem_filter]
  constructor
  · rintro ⟨visibleOffset, shown⟩
    rw [listMemoCollectionPage_eq positive] at shown
    exact List.mem_of_mem_drop (List.mem_of_mem_take (List.mem_of_mem_take shown))
  · intro mem
    obtain ⟨before, after, split⟩ := List.append_of_mem mem
    refine ⟨before.length, ?_⟩
    rw [listMemoCollectionPage_eq positive, window, split, List.drop_left, List.take_take,
      Nat.min_eq_left (Nat.le_succ size)]
    obtain ⟨more, rfl⟩ : ∃ more, size = more + 1 := ⟨size - 1, by omega⟩
    exact List.mem_cons_self

/-! ### The result -/

/-- Some page of a visitor's `ListMemos` returns the memo, and the row is converted. -/
def VisitorLists (service : APIV1Service) (engine : FilterEngine) (db : Tables) (now : Int)
    (memo : MemoRow) : Prop :=
  ∃ listing, service.prepareListMemos engine db 0 {} = .ok (some listing) ∧
    (∃ visibleOffset,
      memo ∈ (listing.page db now visibleOffset (DefaultPageSize + 1)).take DefaultPageSize) ∧
    (getUser db.toState memo.creatorID).isSome = true

/-- The memo is kept from the visitors' listing. -/
def keptFromVisitors (service : APIV1Service) (db : Tables) (now : Int) (memo : MemoRow) : Bool :=
  memo.payload.quarantined || memoIsUnpublished memo now || memo.payload.hidden
    || !categoryAdmits service none memo || !inMainFeed db.toState memo

theorem visitorLists_iff {service : APIV1Service} {engine : FilterEngine} {db : Tables} {now : Int}
    {memo : MemoRow} (letIn : db.allowsAnonymousAccess = true) (there : memo ∈ db.memos)
    (discovered : Discovered db memo) :
    VisitorLists service engine db now memo ↔ keptFromVisitors service db now memo = false := by
  have creator : (getUser db.toState memo.creatorID).isSome = true := by
    have consistent := discovered.consistent
    simp only [Store.consistent, Bool.and_eq_true] at consistent
    cases found : getUser db.toState memo.creatorID with
    | none =>
        rw [found] at consistent
        cases consistent.1.2
    | some user => rfl
  unfold VisitorLists keptFromVisitors
  rw [prepareListMemos_visitor service engine letIn, creator]
  unfold categoryAdmits
  cases inaccessibleMemoCategories service.library service.memoCategoriesJson none with
  | error e =>
      refine iff_of_false ?_ (by simp)
      rintro ⟨listing, prepared, -⟩
      cases prepared
  | ok deniedCategories =>
      dsimp only
      have pages : (∃ visibleOffset, memo ∈ ((visitorListing deniedCategories).page db now
          visibleOffset (DefaultPageSize + 1)).take DefaultPageSize) ↔ _ :=
        exists_page (by decide) (by decide)
      have shown : (visitorListing deniedCategories).visible now memo
          = (memoVisibleInCollection now memo none && memoVisibleInCategories memo deniedCategories) :=
        rfl
      rw [mem_ListMemos, selects_visitorListing discovered, shown,
        memoVisibleInCollection_visitor] at pages
      constructor
      · rintro ⟨listing, prepared, page, -⟩
        injection prepared with prepared
        injection prepared with prepared
        rw [← prepared] at page
        obtain ⟨⟨-, feed⟩, open'⟩ := pages.mp page
        rw [Bool.and_eq_true, Bool.not_eq_true'] at open'
        rw [open'.1, open'.2, feed]
        rfl
      · intro kept
        simp only [Bool.or_eq_false_iff, Bool.not_eq_false'] at kept
        obtain ⟨⟨⟨⟨shown, published⟩, unhidden⟩, admits⟩, feed⟩ := kept
        refine ⟨_, rfl, pages.mpr ⟨⟨there, feed⟩, ?_⟩, rfl⟩
        rw [shown, published, unhidden, admits]
        rfl

/-- **When the sitemap lists only what a visitor's listing returns.**

For every database, every time and every setting of the instance under which there is a
sitemap: every memo in the sitemap is returned by a visitor's `ListMemos`, on some page,
if and only if no memo in the sitemap is quarantined, unpublished, hidden, in a category
that excludes visitors, or in a Space that is kept out of the main feed. -/
theorem sitemap_listed_iff (service : APIV1Service) (engine : FilterEngine) (db : Tables)
    (now : Int) (instanceURL : String) (urls : List String)
    (h : getSitemapXML db instanceURL = .ok urls) :
    (∀ memo ∈ db.memos, memoLocation instanceURL memo.uid ∈ urls →
        VisitorLists service engine db now memo) ↔
      ∀ memo ∈ db.memos, Discovered db memo → keptFromVisitors service db now memo = false := by
  have letIn := (getSitemapXML_eq_ok h).1
  constructor
  · intro lists memo there discovered
    exact (visitorLists_iff letIn there discovered).mp
      (lists memo there ((mem_sitemap h there).mpr discovered))
  · intro none memo there listed
    have discovered := (mem_sitemap h there).mp listed
    exact (visitorLists_iff letIn there discovered).mpr (none memo there discovered)

/-! ### A draft -/

def noteTables (draft : Bool) : Tables :=
  { secretTables with
    memos := ⟨[.withDefaults 1 "novel" 5 .Public none,
      { MemoRow.withDefaults 2 "sequel" 5 .Public none with payload := { title := "", draft } }],
        by cases draft <;> decide, by cases draft <;> decide⟩ }

def noFilters : FilterEngine where
  spaceNames _ := .ok []
  selects _ _ _ _ := true

/-- Once the draft is published, a visitor's listing has it too. -/
theorem sitemap_listed_iff_published :
    VisitorLists plainService noFilters (noteTables false) 60
      { MemoRow.withDefaults 2 "sequel" 5 .Public none with payload := { title := "", draft := false } } := by
  refine (sitemap_listed_iff plainService noFilters (noteTables false) 60 "https://notes.example/"
    ["https://notes.example/memos/sequel", "https://notes.example/memos/novel"]
    (by decide +kernel)).mpr ?_ _ (List.mem_cons_of_mem _ List.mem_cons_self) (by decide +kernel)
  intro memo there _
  rcases List.mem_cons.mp there with rfl | there
  · rfl
  · rw [List.mem_singleton.mp there]
    rfl

theorem draft_in_sitemap :
    getSitemapXML (noteTables true) "https://notes.example/"
        = .ok ["https://notes.example/memos/sequel", "https://notes.example/memos/novel"] ∧
      ∃ memo ∈ (noteTables true).memos, memo.uid = "sequel" ∧
        ¬ VisitorLists plainService noFilters (noteTables true) 60 memo := by
  refine ⟨by decide +kernel, _, List.mem_cons_of_mem _ List.mem_cons_self, rfl, ?_⟩
  rw [visitorLists_iff rfl (List.mem_cons_of_mem _ List.mem_cons_self) ⟨rfl, rfl, rfl, rfl, rfl⟩]
  intro kept
  cases kept

end Memos.Frontend

/-
Which relations are shown, and which memos they name.

A memo of the far end is named if the scope and the filter of collections let it through.
Reading it asks for its category as well; a memo in a denied category is therefore named,
and its beginning quoted, to somebody who may not open it.

A stored relation is merged into one list with the others and added at both ends, so at
each end that is at hand it stands once, or twice if both ends are the same memo.
-/
import Memos.Api.MemoRelations
import Memos.Proofs.Api.MemoAudience

namespace Memos.Api

open Store Access Fileserver

/-! ### Merging -/

theorem mergeStep_spec (rows : List MemoRelationRow) :
    ∀ merged : List MemoRelationRow, merged.Nodup →
      (rows.foldl (fun merged r => if r ∈ merged then merged else merged ++ [r]) merged).Nodup ∧
        ∀ r, r ∈ rows.foldl (fun merged r => if r ∈ merged then merged else merged ++ [r]) merged ↔
          r ∈ merged ∨ r ∈ rows := by
  induction rows with
  | nil =>
      intro merged once
      exact ⟨once, fun r => by simp⟩
  | cons row rows ih =>
      intro merged once
      rw [List.foldl_cons]
      by_cases seen : row ∈ merged
      · rw [if_pos seen]
        obtain ⟨nodup, members⟩ := ih merged once
        refine ⟨nodup, fun r => ?_⟩
        rw [members, List.mem_cons]
        constructor
        · rintro (h | h)
          · exact .inl h
          · exact .inr (.inr h)
        · rintro (h | rfl | h)
          · exact .inl h
          · exact .inl seen
          · exact .inr h
      · rw [if_neg seen]
        have once' : (merged ++ [row]).Nodup := by
          rw [List.nodup_append]
          refine ⟨once, List.nodup_singleton row, ?_⟩
          rintro r there s rest rfl
          rw [List.mem_singleton.mp rest] at there
          exact seen there
        obtain ⟨nodup, members⟩ := ih (merged ++ [row]) once'
        refine ⟨nodup, fun r => ?_⟩
        rw [members, List.mem_append, List.mem_singleton, List.mem_cons, or_assoc]

theorem nodup_mergeMemoRelations (groups : List (List MemoRelationRow)) :
    (mergeMemoRelations groups).Nodup :=
  (mergeStep_spec groups.flatten [] List.nodup_nil).1

theorem mem_mergeMemoRelations {groups : List (List MemoRelationRow)} {r : MemoRelationRow} :
    r ∈ mergeMemoRelations groups ↔ ∃ relations ∈ groups, r ∈ relations := by
  unfold mergeMemoRelations
  rw [(mergeStep_spec groups.flatten [] List.nodup_nil).2, List.mem_flatten]
  simp

theorem mem_relationsOfMemos {db : Tables} {memoIDs : List Int} {r : MemoRelationRow}
    (given : memoIDs ≠ []) :
    r ∈ relationsOfMemos db memoIDs ↔ r ∈ db.relations ∧ memoLives db.toState r.memoID = true ∧
      memoLives db.toState r.relatedMemoID = true ∧
      (r.memoID ∈ memoIDs ∨ r.relatedMemoID ∈ memoIDs) := by
  have nonempty : memoIDs.isEmpty = false := by
    rw [List.isEmpty_eq_false_iff]
    exact given
  unfold relationsOfMemos
  rw [mem_mergeMemoRelations]
  simp only [List.mem_cons, List.not_mem_nil, or_false, exists_eq_or_imp, exists_eq_left,
    mem_ListMemoRelations, nonempty, Bool.false_or, List.isEmpty_nil, Bool.true_or, Bool.and_true,
    Bool.and_eq_true, List.contains_iff_mem]
  constructor
  · rintro (⟨there, ⟨lives, lives'⟩, mem⟩ | ⟨there, ⟨lives, lives'⟩, mem⟩)
    · exact ⟨there, lives, lives', .inl mem⟩
    · exact ⟨there, lives, lives', .inr mem⟩
  · rintro ⟨there, lives, lives', mem | mem⟩
    · exact .inl ⟨there, ⟨lives, lives'⟩, mem⟩
    · exact .inr ⟨there, ⟨lives, lives'⟩, mem⟩

theorem memoLives_iff {state : State} {memo : MemoRow} (there : memo ∈ state.memos) :
    memoLives state memo.id = true ↔ memo.deletedTs = none := by
  unfold memoLives
  rw [Keyed.Table.any_eq_true]
  constructor
  · rintro ⟨other, there', same⟩
    rw [Bool.and_eq_true, decide_eq_true_eq, decide_eq_true_eq] at same
    rw [← Keyed.Table.eq_of_key there' there same.2]
    exact same.1
  · intro lives
    exact ⟨memo, there, by simp [lives]⟩

/-! ### The memos that are known -/

section Known

variable {getMemoContentSnippet : String → Except String String} {includeSnippets : Bool}

def Describes (getMemoContentSnippet : String → Except String String) (includeSnippets : Bool)
    (m : MemoRow) (shown : RelatedMemo) : Prop :=
  shown.name = buildMemoName m.uid ∧
    if includeSnippets then getMemoContentSnippet m.content = .ok shown.snippet
    else shown.snippet = ""

/-- The memos gone through so far are known, and no others. -/
structure Knows (getMemoContentSnippet : String → Except String String) (includeSnippets : Bool)
    (rows : List MemoRow) (known : RelatedMemos) : Prop where
  sound : ∀ id shown, known id = some shown →
    ∃ m ∈ rows, m.id = id ∧ Describes getMemoContentSnippet includeSnippets m shown
  complete : ∀ m ∈ rows, (known m.id).isSome = true

theorem knows_nil : Knows getMemoContentSnippet includeSnippets [] fun _ => none where
  sound id shown h := by cases h
  complete := List.forall_mem_nil _

theorem add_cases {message : String} {known known' : RelatedMemos} {m : MemoRow}
    (h : known.add getMemoContentSnippet includeSnippets message m = .ok known') :
    ∃ shown, Describes getMemoContentSnippet includeSnippets m shown ∧
      known' = Function.update known m.id (some shown) := by
  unfold RelatedMemos.add at h
  cases includeSnippets with
  | false =>
      injection h with h
      exact ⟨⟨buildMemoName m.uid, ""⟩, ⟨rfl, by rw [if_neg Bool.false_ne_true]⟩, h.symm⟩
  | true =>
      rw [if_pos rfl] at h
      cases parsed : getMemoContentSnippet m.content with
      | error e =>
          rw [parsed] at h
          cases h
      | ok snippet =>
          rw [parsed] at h
          injection h with h
          exact ⟨⟨buildMemoName m.uid, snippet⟩, ⟨rfl, by rw [if_pos rfl, parsed]⟩, h.symm⟩

theorem Knows.add {rows : List MemoRow} {message : String} {known known' : RelatedMemos}
    {m : MemoRow} (knows : Knows getMemoContentSnippet includeSnippets rows known)
    (h : known.add getMemoContentSnippet includeSnippets message m = .ok known') :
    Knows getMemoContentSnippet includeSnippets (rows ++ [m]) known' := by
  obtain ⟨shown, describes, rfl⟩ := add_cases h
  constructor
  · intro id shown' found
    by_cases same : id = m.id
    · rw [same, Function.update_self] at found
      injection found with found
      rw [← found]
      exact ⟨m, by simp, same.symm, describes⟩
    · rw [Function.update_of_ne same] at found
      obtain ⟨m', there, is, describes'⟩ := knows.sound id shown' found
      exact ⟨m', List.mem_append_left _ there, is, describes'⟩
  · intro m' there
    by_cases same : m'.id = m.id
    · rw [same, Function.update_self]
      rfl
    · rw [Function.update_of_ne same]
      rcases List.mem_append.mp there with there | here
      · exact knows.complete m' there
      · rw [List.mem_singleton.mp here] at same
        exact absurd rfl same

theorem Knows.foldlM {message : String} (memos : List MemoRow) :
    ∀ {rows : List MemoRow} {known known' : RelatedMemos},
      Knows getMemoContentSnippet includeSnippets rows known →
      memos.foldlM (RelatedMemos.add getMemoContentSnippet includeSnippets message) known
        = .ok known' →
      Knows getMemoContentSnippet includeSnippets (rows ++ memos) known' := by
  induction memos with
  | nil =>
      intro rows known known' knows h
      injection h with h
      rw [← h, List.append_nil]
      exact knows
  | cons m memos ih =>
      intro rows known known' knows h
      rw [List.foldlM_cons] at h
      cases added : known.add getMemoContentSnippet includeSnippets message m with
      | error e =>
          rw [added] at h
          cases h
      | ok next =>
          rw [added] at h
          have := ih (knows.add added) h
          rwa [List.append_assoc, List.singleton_append] at this

end Known

/-! ### The messages of a relation -/

/-- What a relation adds to the messages of a memo. -/
def messagesOf (memoIDs : List Int) (known : RelatedMemos) (id : Int) (r : MemoRelationRow) :
    List MemoRelationMessage :=
  match known r.memoID, known r.relatedMemoID with
  | some memo, some relatedMemo =>
      let relation : MemoRelationMessage :=
        { memo, relatedMemo, type := convertMemoRelationTypeFromStore r.type }
      (if memoIDs.contains id && decide (r.memoID = id) then [relation] else [])
        ++ if memoIDs.contains id && decide (r.relatedMemoID = id) then [relation] else []
  | _, _ => []

theorem addRelation_apply (memoIDs : List Int) (known : RelatedMemos)
    (result : Int → List MemoRelationMessage) (r : MemoRelationRow) (id : Int) :
    addRelation memoIDs known result r id = result id ++ messagesOf memoIDs known id r := by
  have append_apply (result : Int → List MemoRelationMessage) (relation : MemoRelationMessage)
      (memoID : Int) :
      (if memoIDs.contains memoID then Function.update result memoID (result memoID ++ [relation])
        else result) id
      = result id ++ if memoIDs.contains id && decide (memoID = id) then [relation] else [] := by
    by_cases same : memoID = id
    · subst same
      cases memoIDs.contains memoID with
      | false => simp
      | true => simp
    · rw [decide_eq_false same, Bool.and_false, if_neg Bool.false_ne_true, List.append_nil]
      split
      · exact Function.update_of_ne (Ne.symm same) _ _
      · rfl
  unfold addRelation messagesOf
  cases known r.memoID with
  | none => simp
  | some memo =>
      cases known r.relatedMemoID with
      | none => simp
      | some relatedMemo =>
          dsimp only
          rw [append_apply, append_apply, List.append_assoc]

theorem addRelations_apply (memoIDs : List Int) (known : RelatedMemos) (id : Int)
    (relations : List MemoRelationRow) :
    ∀ result : Int → List MemoRelationMessage,
      relations.foldl (addRelation memoIDs known) result id
        = result id ++ relations.flatMap (messagesOf memoIDs known id) := by
  induction relations with
  | nil =>
      intro result
      simp
  | cons r relations ih =>
      intro result
      rw [List.foldl_cons, ih, addRelation_apply, List.flatMap_cons, List.append_assoc]

theorem mem_messagesOf {memoIDs : List Int} {known : RelatedMemos} {id : Int} {r : MemoRelationRow}
    {x : MemoRelationMessage} (h : x ∈ messagesOf memoIDs known id r) :
    known r.memoID = some x.memo ∧ known r.relatedMemoID = some x.relatedMemo ∧
      x.type = convertMemoRelationTypeFromStore r.type ∧ id ∈ memoIDs ∧
      (r.memoID = id ∨ r.relatedMemoID = id) := by
  unfold messagesOf at h
  cases first : known r.memoID with
  | none =>
      rw [first] at h
      cases h
  | some memo =>
      cases second : known r.relatedMemoID with
      | none =>
          rw [first, second] at h
          cases h
      | some relatedMemo =>
          rw [first, second] at h
          dsimp only at h
          rcases List.mem_append.mp h with h | h
          · split at h
            · rename_i here
              rw [Bool.and_eq_true, List.contains_iff_mem, decide_eq_true_eq] at here
              rw [List.mem_singleton.mp h]
              exact ⟨rfl, rfl, rfl, here.1, .inl here.2⟩
            · cases h
          · split at h
            · rename_i here
              rw [Bool.and_eq_true, List.contains_iff_mem, decide_eq_true_eq] at here
              rw [List.mem_singleton.mp h]
              exact ⟨rfl, rfl, rfl, here.1, .inr here.2⟩
            · cases h

/-! ### Counting -/

/-- In a list without repetition, what one entry gives is counted once. -/
theorem countP_flatMap_of_nodup {α β : Type} {f : α → List β} {p : β → Bool} {a : α} :
    ∀ {l : List α}, l.Nodup → a ∈ l → (∀ b ∈ l, b ≠ a → ∀ x ∈ f b, p x = false) →
      (l.flatMap f).countP p = (f a).countP p := by
  intro l
  induction l with
  | nil =>
      intro _ there
      exact absurd there List.not_mem_nil
  | cons b l ih =>
      intro nodup there others
      rw [List.nodup_cons] at nodup
      rw [List.flatMap_cons, List.countP_append]
      rcases List.mem_cons.mp there with rfl | rest
      · have nothing : (l.flatMap f).countP p = 0 := by
          rw [List.countP_eq_zero]
          intro x mem
          obtain ⟨c, later, mem⟩ := List.mem_flatMap.mp mem
          have other : c ≠ a := by
            rintro rfl
            exact nodup.1 later
          rw [others c (List.mem_cons_of_mem _ later) other x mem]
          exact Bool.false_ne_true
        rw [nothing, Nat.add_zero]
      · have other : b ≠ a := by
          rintro rfl
          exact nodup.1 rest
        have nothing : (f b).countP p = 0 := by
          rw [List.countP_eq_zero]
          intro x mem
          rw [others b List.mem_cons_self other x mem]
          exact Bool.false_ne_true
        rw [nothing, Nat.zero_add]
        exact ih nodup.2 rest fun c later => others c (List.mem_cons_of_mem _ later)

/-- The message is that of a relation between two memos. -/
def Relates (memo relatedMemo : MemoRow) (type : MemoRelationType) (x : MemoRelationMessage) :
    Bool :=
  decide (x.memo.name = buildMemoName memo.uid)
    && decide (x.relatedMemo.name = buildMemoName relatedMemo.uid)
    && decide (x.type = convertMemoRelationTypeFromStore type)

theorem names_of_counted {memo relatedMemo : MemoRow} {type : MemoRelationType}
    {messages : List MemoRelationMessage} (h : 0 < messages.countP (Relates memo relatedMemo type)) :
    ∃ x ∈ messages, x.memo.name = buildMemoName memo.uid ∧
      x.relatedMemo.name = buildMemoName relatedMemo.uid := by
  obtain ⟨x, mem, relates⟩ := List.countP_pos_iff.mp h
  simp only [Relates, Bool.and_eq_true, decide_eq_true_eq] at relates
  exact ⟨x, mem, relates.1⟩

/-- A relation gives one message at each of its ends, and two where both ends are one. -/
theorem countP_messagesOf {memoIDs : List Int} {known : RelatedMemos} {r : MemoRelationRow}
    {memo relatedMemo : MemoRow} {shown shown' : RelatedMemo} {id : Int}
    (first : known r.memoID = some shown) (name : shown.name = buildMemoName memo.uid)
    (second : known r.relatedMemoID = some shown') (name' : shown'.name = buildMemoName relatedMemo.uid)
    (here : id ∈ memoIDs) :
    (messagesOf memoIDs known id r).countP (Relates memo relatedMemo r.type)
      = (if r.memoID = id then 1 else 0) + if r.relatedMemoID = id then 1 else 0 := by
  have counted (c : Bool) : (if memoIDs.contains id && c then
      [(⟨shown, shown', convertMemoRelationTypeFromStore r.type⟩ : MemoRelationMessage)]
      else []).countP (Relates memo relatedMemo r.type) = if c then 1 else 0 := by
    rw [List.contains_iff_mem.mpr here, Bool.true_and]
    cases c with
    | false => rfl
    | true =>
        rw [if_pos rfl, if_pos rfl, List.countP_singleton, Relates]
        simp [name, name']
  unfold messagesOf
  rw [first, second]
  dsimp only
  rw [List.countP_append, counted, counted]
  simp only [decide_eq_true_eq]

/-! ### The result of a batch -/

section Batch

variable {service : APIV1Service} {getMemoContentSnippet : String → Except String String}
  {db : Tables} {now authUserID : Int} {viewer : Option UserRow} {memos : List MemoRow}
  {includeSnippets : Bool} {result : Int → List MemoRelationMessage}

/-- A relation joins the memo, from outside the list, to one of the list. -/
def OuterEnd (db : Tables) (memos : List MemoRow) (memo : MemoRow) : Prop :=
  memo ∉ memos ∧ ∃ r ∈ db.relations, ∃ m ∈ memos,
    (r.memoID = m.id ∧ r.relatedMemoID = memo.id) ∨ (r.memoID = memo.id ∧ r.relatedMemoID = m.id)

/-- The scope and the filter let the memo through. -/
def LetThrough (db : Tables) (now : Int) (viewer : Option UserRow) (memo : MemoRow) : Prop :=
  memo.deletedTs = none ∧ inAudience db.toState viewer memo = true ∧
    memoVisibleInCollection now memo viewer = true

theorem mem_relatedMemos (fetched : fetchCurrentUser db.toState authUserID = .ok viewer)
    {extraIDs : List Int} {memo : MemoRow} :
    memo ∈ relatedMemos db now (newMemoAccessScope viewer
        (if viewer.isNone then db.allowsAnonymousAccess else true)) viewer extraIDs ↔
      memo ∈ db.memos ∧ memo.id ∈ extraIDs ∧ LetThrough db now viewer memo := by
  have predicate := isTrue_predicate_fetched fetched memo
  unfold relatedMemos LetThrough
  cases empty : extraIDs.isEmpty with
  | true =>
      rw [List.isEmpty_iff.mp empty]
      simp
  | false =>
      rw [if_neg Bool.false_ne_true, List.mem_filter, mem_ListMemos]
      unfold FindMemo.selects
      simp only [List.all_nil, empty, Option.all_none, Option.all_some, List.isEmpty_nil,
        Bool.true_or, Bool.false_or, Bool.false_and, Bool.not_false, Bool.and_true,
        Bool.and_eq_true, decide_eq_true_eq, List.contains_iff_mem]
      rw [predicate, Bool.and_eq_true, decide_eq_true_eq]
      constructor
      · rintro ⟨⟨there, ⟨live, needed⟩, audience, -⟩, visible⟩
        exact ⟨there, needed, live, audience, visible⟩
      · rintro ⟨there, needed, live, audience, visible⟩
        exact ⟨⟨there, ⟨live, needed⟩, audience, live⟩, visible⟩

theorem mem_neededIDs {memoIDs : List Int} {relations : List MemoRelationRow} {id : Int} :
    id ∈ neededIDs memoIDs relations ↔
      id ∉ memoIDs ∧ ∃ r ∈ relations, id = r.memoID ∨ id = r.relatedMemoID := by
  unfold neededIDs
  simp [and_comm]

/-- The memos that are known in the end: those of the list, and the outer ends of
relations that are let through. -/
structure Converted (getMemoContentSnippet : String → Except String String) (db : Tables)
    (now : Int) (viewer : Option UserRow) (memos : List MemoRow) (includeSnippets : Bool)
    (result : Int → List MemoRelationMessage) (extra : List MemoRow) (known : RelatedMemos) :
    Prop where
  knows : Knows getMemoContentSnippet includeSnippets (memos ++ extra) known
  mem_extra : ∀ memo, memo ∈ extra ↔ memo ∈ db.memos ∧
    memo.id ∈ neededIDs (memos.map MemoRow.id) (relationsOfMemos db (memos.map MemoRow.id)) ∧
      LetThrough db now viewer memo
  result : ∀ id, result id
    = (relationsOfMemos db (memos.map MemoRow.id)).flatMap (messagesOf (memos.map MemoRow.id) known id)

theorem converted_of_batch (fetched : fetchCurrentUser db.toState authUserID = .ok viewer)
    (given : memos ≠ [])
    (h : batchConvertMemoRelations getMemoContentSnippet db now authUserID memos includeSnippets
      = .ok result) :
    ∃ extra known, Converted getMemoContentSnippet db now viewer memos includeSnippets result extra
      known := by
  have nonempty : memos.isEmpty = false := by
    rw [List.isEmpty_eq_false_iff]
    exact given
  unfold batchConvertMemoRelations at h
  rw [nonempty, resolveMemoAccessScope_fetched fetched] at h
  dsimp only [bind, Except.bind, pure, Except.pure] at h
  rw [if_neg Bool.false_ne_true] at h
  split at h
  · cases h
  · rename_i known listed
    split at h
    · cases h
    · rename_i known' added
      injection h with h
      have knows := (knows_nil.foldlM memos listed).foldlM _ added
      refine ⟨_, known', knows, ?_, ?_⟩
      · exact fun memo => mem_relatedMemos fetched
      · intro id
        rw [← h, addRelations_apply, List.nil_append]

theorem mem_ids_iff (stored : ∀ memo ∈ memos, memo ∈ db.memos) {memo : MemoRow}
    (there : memo ∈ db.memos) : memo.id ∈ memos.map MemoRow.id ↔ memo ∈ memos := by
  constructor
  · intro h
    obtain ⟨other, listed, same⟩ := List.mem_map.mp h
    rwa [← Keyed.Table.eq_of_key (stored other listed) there same]
  · exact List.mem_map_of_mem

theorem Converted.mem_extra_iff {extra : List MemoRow} {known : RelatedMemos}
    (converted : Converted getMemoContentSnippet db now viewer memos includeSnippets result extra
      known)
    (given : memos ≠ []) (stored : ∀ memo ∈ memos, memo ∈ db.memos)
    (live : ∀ memo ∈ memos, memo.deletedTs = none) (memo : MemoRow) :
    memo ∈ extra ↔ memo ∈ db.memos ∧ OuterEnd db memos memo ∧ LetThrough db now viewer memo := by
  have given' : memos.map MemoRow.id ≠ [] := by simpa using given
  rw [converted.mem_extra, mem_neededIDs]
  constructor
  · rintro ⟨there, ⟨outside, r, merged, is⟩, through⟩
    rw [mem_relationsOfMemos given'] at merged
    obtain ⟨mem, -, -, inside⟩ := merged
    refine ⟨there, ⟨?_, r, mem, ?_⟩, through⟩
    · rwa [mem_ids_iff stored there] at outside
    · rcases is with is | is
      · rw [← is] at inside
        obtain ⟨m, listed, same⟩ := List.mem_map.mp (inside.resolve_left outside)
        exact ⟨m, listed, .inr ⟨is.symm, same.symm⟩⟩
      · rw [← is] at inside
        obtain ⟨m, listed, same⟩ := List.mem_map.mp (inside.resolve_right outside)
        exact ⟨m, listed, .inl ⟨same.symm, is.symm⟩⟩
  · rintro ⟨there, ⟨outside, r, mem, m, listed, joins⟩, through⟩
    have lives := (memoLives_iff there).mpr through.1
    have lives' := (memoLives_iff (stored m listed)).mpr (live m listed)
    have inside : m.id ∈ memos.map MemoRow.id := List.mem_map_of_mem listed
    refine ⟨there, ⟨?_, r, (mem_relationsOfMemos given').mpr ⟨mem, ?_⟩, ?_⟩, through⟩
    · rwa [mem_ids_iff stored there]
    · rcases joins with ⟨source, related⟩ | ⟨source, related⟩
      · rw [source, related]
        exact ⟨lives', lives, .inl inside⟩
      · rw [source, related]
        exact ⟨lives, lives', .inr inside⟩
    · rcases joins with ⟨-, related⟩ | ⟨source, -⟩
      · exact .inr related.symm
      · exact .inl source.symm

/-- Every message is that of a stored relation between two known memos. -/
theorem Converted.sound {extra : List MemoRow} {known : RelatedMemos}
    (converted : Converted getMemoContentSnippet db now viewer memos includeSnippets result extra
      known)
    (given : memos ≠ []) {id : Int} {x : MemoRelationMessage} (h : x ∈ result id) :
    ∃ r ∈ db.relations, ∃ memo ∈ memos ++ extra, ∃ relatedMemo ∈ memos ++ extra,
      memo.id = r.memoID ∧ relatedMemo.id = r.relatedMemoID ∧
      Describes getMemoContentSnippet includeSnippets memo x.memo ∧
      Describes getMemoContentSnippet includeSnippets relatedMemo x.relatedMemo ∧
      x.type = convertMemoRelationTypeFromStore r.type ∧ (r.memoID = id ∨ r.relatedMemoID = id) := by
  have given' : memos.map MemoRow.id ≠ [] := by simpa using given
  rw [converted.result] at h
  obtain ⟨r, merged, mem⟩ := List.mem_flatMap.mp h
  obtain ⟨first, second, type, -, place⟩ := mem_messagesOf mem
  obtain ⟨memo, there, is, describes⟩ := converted.knows.sound _ _ first
  obtain ⟨relatedMemo, there', is', describes'⟩ := converted.knows.sound _ _ second
  exact ⟨r, ((mem_relationsOfMemos given').mp merged).1, memo, there, relatedMemo, there', is, is',
    describes, describes', type, place⟩

theorem convertMemoRelationTypeFromStore_inj {type type' : MemoRelationType}
    (h : convertMemoRelationTypeFromStore type = convertMemoRelationTypeFromStore type') :
    type = type' := by
  cases type <;> cases type' <;> first | rfl | cases h

theorem Converted.named {extra : List MemoRow} {known : RelatedMemos}
    (converted : Converted getMemoContentSnippet db now viewer memos includeSnippets result extra
      known)
    (given : memos ≠ []) (stored : ∀ memo ∈ memos ++ extra, memo ∈ db.memos) {id : Int}
    {x : MemoRelationMessage} (h : x ∈ result id) {memo : MemoRow} (there : memo ∈ db.memos)
    (names : x.memo.name = buildMemoName memo.uid ∨ x.relatedMemo.name = buildMemoName memo.uid) :
    memo ∈ memos ++ extra := by
  obtain ⟨-, -, a, first, b, second, -, -, ⟨name, -⟩, ⟨name', -⟩, -, -⟩ := converted.sound given h
  rcases names with is | is
  · rwa [eq_of_uid there (stored a first) (buildMemoName_inj (is.symm.trans name))]
  · rwa [eq_of_uid there (stored b second) (buildMemoName_inj (is.symm.trans name'))]

/-- A stored relation between two known memos, counted at one of the list. -/
theorem Converted.count {extra : List MemoRow} {known : RelatedMemos}
    (converted : Converted getMemoContentSnippet db now viewer memos includeSnippets result extra
      known)
    (given : memos ≠ []) (stored : ∀ memo ∈ memos ++ extra, memo ∈ db.memos)
    (live : ∀ memo ∈ memos ++ extra, memo.deletedTs = none) {r : MemoRelationRow}
    (mem : r ∈ db.relations) {a b memo : MemoRow} (first : a ∈ memos ++ extra)
    (second : b ∈ memos ++ extra) (source : r.memoID = a.id) (related : r.relatedMemoID = b.id)
    (listed : memo ∈ memos) (here : memo = a ∨ memo = b) :
    (result memo.id).countP (Relates a b r.type)
      = (if r.memoID = memo.id then 1 else 0) + if r.relatedMemoID = memo.id then 1 else 0 := by
  have given' : memos.map MemoRow.id ≠ [] := by simpa using given
  have inside : memo.id ∈ memos.map MemoRow.id := List.mem_map_of_mem listed
  have merged : r ∈ relationsOfMemos db (memos.map MemoRow.id) := by
    rw [mem_relationsOfMemos given', source, related, memoLives_iff (stored a first),
      memoLives_iff (stored b second)]
    refine ⟨mem, live a first, live b second, ?_⟩
    rcases here with rfl | rfl
    · exact .inl inside
    · exact .inr inside
  have others : ∀ s ∈ relationsOfMemos db (memos.map MemoRow.id), s ≠ r →
      ∀ x ∈ messagesOf (memos.map MemoRow.id) known memo.id s, Relates a b r.type x = false := by
    intro s _ other x shown
    by_contra same
    rw [Bool.not_eq_false] at same
    unfold Relates at same
    simp only [Bool.and_eq_true, decide_eq_true_eq] at same
    obtain ⟨⟨name, name'⟩, type⟩ := same
    obtain ⟨foundFirst, foundSecond, is, -, -⟩ := mem_messagesOf shown
    obtain ⟨c, thereFirst, idFirst, describes, -⟩ := converted.knows.sound _ _ foundFirst
    obtain ⟨d, thereSecond, idSecond, describes', -⟩ := converted.knows.sound _ _ foundSecond
    have sameFirst := eq_of_uid (stored c thereFirst) (stored a first)
      (buildMemoName_inj (describes.symm.trans name))
    have sameSecond := eq_of_uid (stored d thereSecond) (stored b second)
      (buildMemoName_inj (describes'.symm.trans name'))
    refine other ?_
    rcases s with ⟨sourceID, relatedID, sType⟩
    rcases r with ⟨sourceID', relatedID', rType⟩
    simp only at idFirst idSecond source related is type
    rw [source, related, ← sameFirst, ← sameSecond, idFirst, idSecond,
      convertMemoRelationTypeFromStore_inj (is.symm.trans type)]
  obtain ⟨shown, knownFirst⟩ := Option.isSome_iff_exists.mp (converted.knows.complete a first)
  obtain ⟨shown', knownSecond⟩ := Option.isSome_iff_exists.mp (converted.knows.complete b second)
  obtain ⟨c, thereFirst, idFirst, name, -⟩ := converted.knows.sound _ _ knownFirst
  obtain ⟨d, thereSecond, idSecond, name', -⟩ := converted.knows.sound _ _ knownSecond
  rw [Keyed.Table.eq_of_key (stored c thereFirst) (stored a first) idFirst] at name
  rw [Keyed.Table.eq_of_key (stored d thereSecond) (stored b second) idSecond] at name'
  rw [← source] at knownFirst
  rw [← related] at knownSecond
  have once : (relationsOfMemos db (memos.map MemoRow.id)).Nodup := nodup_mergeMemoRelations _
  rw [converted.result, countP_flatMap_of_nodup once merged others,
    countP_messagesOf knownFirst name knownSecond name' inside]

end Batch

/-! ### What is asked of the result -/

section Result

variable (service : APIV1Service) (db : Tables) (now authUserID : Int) (memos : List MemoRow)
  (result : Int → List MemoRelationMessage)

/-- The viewer may read every memo that is named outside the list. -/
def NamesReadable : Prop :=
  ∀ id, ∀ x ∈ result id, ∀ memo ∈ db.memos, memo ∉ memos →
    x.memo.name = buildMemoName memo.uid ∨ x.relatedMemo.name = buildMemoName memo.uid →
      CanRead service db now authUserID memo.uid

/-- A stored relation between readable memos is shown once at each end in the list. -/
def EachOnce : Prop :=
  ∀ r ∈ db.relations, ∀ a ∈ db.memos, ∀ b ∈ db.memos, r.memoID = a.id → r.relatedMemoID = b.id →
    CanRead service db now authUserID a.uid → CanRead service db now authUserID b.uid →
      ∀ memo ∈ memos, memo = a ∨ memo = b → (result memo.id).countP (Relates a b r.type) = 1

def NoLoop : Prop :=
  ∀ r ∈ db.relations, ∀ memo ∈ memos, ¬ (r.memoID = memo.id ∧ r.relatedMemoID = memo.id)

/-- A memo of which only the category keeps the viewer out. -/
def OutOfCategory (viewer : Option UserRow) (memo : MemoRow) : Prop :=
  LetThrough db now viewer memo ∧ categoryAdmits service viewer memo = false

/-- Somebody else's hidden memo that may be read by its name. -/
def HiddenButReadable (viewer : Option UserRow) (memo : MemoRow) : Prop :=
  CanRead service db now authUserID memo.uid ∧ memo.payload.hidden = true ∧
    viewer.all (fun viewer => decide (memo.creatorID ≠ viewer.id)) = true

end Result

section Result

variable {service : APIV1Service} {db : Tables} {now authUserID : Int} {viewer : Option UserRow}
  {memo : MemoRow}

theorem canRead_iff (fetched : fetchCurrentUser db.toState authUserID = .ok viewer)
    (ordinary : isSuperUser viewer = false) (stored : memo ∈ db.memos) :
    CanRead service db now authUserID memo.uid ↔
      memo.deletedTs = none ∧ inAudience db.toState viewer memo = true ∧
        withheld service.library service.memoCategoriesJson now viewer memo = false :=
  checkMemoReadAccess_ok _ _ _ fetched ordinary stored

/-- What may be read and is kept out of collections is somebody else's hidden memo. -/
theorem visible_of_not_withheld (open' : withheld service.library service.memoCategoriesJson now
      viewer memo = false) (ordinary : isSuperUser viewer = false) :
    memoVisibleInCollection now memo viewer
      = !(memo.payload.hidden && viewer.all fun viewer => decide (memo.creatorID ≠ viewer.id)) := by
  unfold withheld at open'
  simp only [Bool.or_eq_false_iff] at open'
  obtain ⟨⟨shown, published⟩, -⟩ := open'
  unfold memoVisibleInCollection
  rw [ordinary, shown, if_neg Bool.false_ne_true, if_neg Bool.false_ne_true]
  have own : (viewer.any fun user => decide (memo.creatorID = user.id))
      = !viewer.all fun viewer => decide (memo.creatorID ≠ viewer.id) := by
    cases viewer <;> simp
  rw [own]
  revert published
  generalize (viewer.all fun viewer => decide (memo.creatorID ≠ viewer.id)) = others
  cases memoIsUnpublished memo now <;> cases memo.payload.hidden <;> cases others <;> decide

end Result

/-! ### A batch of an ordinary viewer -/

section Ordinary

variable {service : APIV1Service} {getMemoContentSnippet : String → Except String String}
  {db : Tables} {now authUserID : Int} {viewer : Option UserRow} {memos : List MemoRow}
  {includeSnippets : Bool} {result : Int → List MemoRelationMessage} {extra : List MemoRow}
  {known : RelatedMemos}

/-- The viewer may read the list, and there is one. -/
structure OrdinaryBatch (service : APIV1Service)
    (getMemoContentSnippet : String → Except String String) (db : Tables) (now authUserID : Int)
    (viewer : Option UserRow) (memos : List MemoRow) (includeSnippets : Bool)
    (result : Int → List MemoRelationMessage) (extra : List MemoRow) (known : RelatedMemos) : Prop
    extends Converted getMemoContentSnippet db now viewer memos includeSnippets result extra known
    where
  fetched : fetchCurrentUser db.toState authUserID = .ok viewer
  ordinary : isSuperUser viewer = false
  given : memos ≠ []
  listed : ∀ memo ∈ memos, memo ∈ db.memos ∧ CanRead service db now authUserID memo.uid

namespace OrdinaryBatch

variable (batch : OrdinaryBatch service getMemoContentSnippet db now authUserID viewer memos
  includeSnippets result extra known)

include batch

theorem mem_extra_iff (memo : MemoRow) :
    memo ∈ extra ↔ memo ∈ db.memos ∧ OuterEnd db memos memo ∧ LetThrough db now viewer memo := by
  refine batch.toConverted.mem_extra_iff batch.given (fun memo mem => (batch.listed memo mem).1)
    (fun memo mem => ?_) memo
  exact ((canRead_iff batch.fetched batch.ordinary (batch.listed memo mem).1).mp
    (batch.listed memo mem).2).1

theorem stored {memo : MemoRow} (mem : memo ∈ memos ++ extra) : memo ∈ db.memos := by
  rcases List.mem_append.mp mem with mem | mem
  · exact (batch.listed memo mem).1
  · exact ((batch.mem_extra_iff memo).mp mem).1

theorem live {memo : MemoRow} (mem : memo ∈ memos ++ extra) : memo.deletedTs = none := by
  rcases List.mem_append.mp mem with mem | mem
  · exact ((canRead_iff batch.fetched batch.ordinary (batch.listed memo mem).1).mp
      (batch.listed memo mem).2).1
  · exact ((batch.mem_extra_iff memo).mp mem).2.2.1

/-- Whatever is named outside the list was fetched for it. -/
theorem fetched_of_named {id : Int} {x : MemoRelationMessage} (mem : x ∈ result id) {memo : MemoRow}
    (there : memo ∈ db.memos) (outside : memo ∉ memos)
    (names : x.memo.name = buildMemoName memo.uid ∨ x.relatedMemo.name = buildMemoName memo.uid) :
    memo ∈ extra :=
  (List.mem_append.mp (batch.toConverted.named batch.given (fun _ => batch.stored) mem there
    names)).resolve_left outside

theorem count {r : MemoRelationRow} (mem : r ∈ db.relations) {a b memo : MemoRow}
    (first : a ∈ memos ++ extra) (second : b ∈ memos ++ extra) (source : r.memoID = a.id)
    (related : r.relatedMemoID = b.id) (listed : memo ∈ memos) (here : memo = a ∨ memo = b) :
    (result memo.id).countP (Relates a b r.type)
      = (if r.memoID = memo.id then 1 else 0) + if r.relatedMemoID = memo.id then 1 else 0 :=
  batch.toConverted.count batch.given (fun _ => batch.stored) (fun _ => batch.live) mem first second
    source related listed here

/-- A relation of a memo of the list to itself stands there twice. -/
theorem loopless (once : EachOnce service db now authUserID memos result) : NoLoop db memos := by
  rintro r mem memo here ⟨source, related⟩
  obtain ⟨there, readable⟩ := batch.listed memo here
  have known : memo ∈ memos ++ extra := List.mem_append_left _ here
  have counted := once r mem memo there memo there source related readable readable memo here
    (.inl rfl)
  rw [batch.count mem known known source related here (.inl rfl), if_pos source, if_pos related]
    at counted
  cases counted

/-- An outer end that was fetched is named at the list's end of the relation. -/
theorem named_of_fetched {memo m : MemoRow} (mem : memo ∈ extra) (here : m ∈ memos) {r : MemoRelationRow} (there : r ∈ db.relations)
    (joins : (r.memoID = m.id ∧ r.relatedMemoID = memo.id)
      ∨ (r.memoID = memo.id ∧ r.relatedMemoID = m.id)) :
    ∃ x ∈ result m.id,
      x.memo.name = buildMemoName memo.uid ∨ x.relatedMemo.name = buildMemoName memo.uid := by
  have known : m ∈ memos ++ extra := List.mem_append_left _ here
  have known' : memo ∈ memos ++ extra := List.mem_append_right _ mem
  rcases joins with ⟨source, related⟩ | ⟨source, related⟩
  · have counted := batch.count there known known' source related here (.inl rfl)
    rw [if_pos source] at counted
    have positive : 0 < (result m.id).countP (Relates m memo r.type) := by omega
    obtain ⟨x, shown, -, name⟩ := names_of_counted positive
    exact ⟨x, shown, .inr name⟩
  · have counted := batch.count there known' known source related here (.inr rfl)
    rw [if_pos related] at counted
    have positive : 0 < (result m.id).countP (Relates memo m r.type) := by omega
    obtain ⟨x, shown, name, -⟩ := names_of_counted positive
    exact ⟨x, shown, .inl name⟩

/-- If only the readable is named, no outer end is kept from the viewer by its category. -/
theorem not_outOfCategory (names : NamesReadable service db now authUserID memos result)
    {memo : MemoRow} (there : memo ∈ db.memos) (outer : OuterEnd db memos memo) :
    ¬ OutOfCategory service db now viewer memo := by
  rintro ⟨through, denied⟩
  have mem := (batch.mem_extra_iff memo).mpr ⟨there, outer, through⟩
  obtain ⟨outside, r, stored, m, here, joins⟩ := outer
  obtain ⟨x, shown, naming⟩ := batch.named_of_fetched mem here stored joins
  have readable := names m.id x shown memo there outside naming
  rw [canRead_of_visible batch.fetched batch.ordinary there through.2.2, denied] at readable
  cases readable.2.2

theorem not_hidden (once : EachOnce service db now authUserID memos result)
    {memo : MemoRow} (there : memo ∈ db.memos) (outer : OuterEnd db memos memo) :
    ¬ HiddenButReadable service db now authUserID viewer memo := by
  rintro ⟨readable, hidden, others⟩
  obtain ⟨outside, r, stored, m, here, joins⟩ := id outer
  obtain ⟨there', readable'⟩ := batch.listed m here
  have shown : ∃ x ∈ result m.id,
      x.memo.name = buildMemoName memo.uid ∨ x.relatedMemo.name = buildMemoName memo.uid := by
    rcases joins with ⟨source, related⟩ | ⟨source, related⟩
    · have counted := once r stored m there' memo there source related readable' readable m here
        (.inl rfl)
      have positive : 0 < (result m.id).countP (Relates m memo r.type) := by omega
      obtain ⟨x, shown, -, name⟩ := names_of_counted positive
      exact ⟨x, shown, .inr name⟩
    · have counted := once r stored memo there m there' source related readable readable' m here
        (.inr rfl)
      have positive : 0 < (result m.id).countP (Relates memo m r.type) := by omega
      obtain ⟨x, shown, name, -⟩ := names_of_counted positive
      exact ⟨x, shown, .inl name⟩
  obtain ⟨x, mem, naming⟩ := shown
  have fetchedEnd := batch.fetched_of_named mem there outside naming
  have visible := ((batch.mem_extra_iff memo).mp fetchedEnd).2.2.2.2
  obtain ⟨-, -, open'⟩ := (canRead_iff batch.fetched batch.ordinary there).mp readable
  rw [visible_of_not_withheld open' batch.ordinary, hidden, others] at visible
  cases visible

theorem namesReadable (ends : ∀ memo ∈ db.memos, OuterEnd db memos memo →
      ¬ OutOfCategory service db now viewer memo) :
    NamesReadable service db now authUserID memos result := by
  intro id x mem memo there outside naming
  obtain ⟨-, outer, through⟩ :=
    (batch.mem_extra_iff memo).mp (batch.fetched_of_named mem there outside naming)
  rw [canRead_of_visible batch.fetched batch.ordinary there through.2.2]
  refine ⟨through.1, through.2.1, ?_⟩
  by_contra denied
  exact ends memo there outer ⟨through, by simpa using denied⟩

/-- A readable end is known, if it is not hidden. -/
theorem known_of_readable (ends : ∀ memo ∈ db.memos, OuterEnd db memos memo →
      ¬ HiddenButReadable service db now authUserID viewer memo)
    {memo : MemoRow} (there : memo ∈ db.memos)
    (readable : CanRead service db now authUserID memo.uid)
    (joined : memo ∉ memos → OuterEnd db memos memo) : memo ∈ memos ++ extra := by
  rw [List.mem_append]
  by_cases here : memo ∈ memos
  · exact .inl here
  · refine .inr ((batch.mem_extra_iff memo).mpr ⟨there, joined here, ?_⟩)
    obtain ⟨live, audience, open'⟩ := (canRead_iff batch.fetched batch.ordinary there).mp readable
    refine ⟨live, audience, ?_⟩
    rw [visible_of_not_withheld open' batch.ordinary, Bool.not_eq_true', Bool.and_eq_false_iff]
    by_contra both
    simp only [not_or, Bool.not_eq_false] at both
    exact ends memo there (joined here) ⟨readable, both⟩

/-- Every relation is shown once at each of its ends, if none is a loop. -/
theorem eachOnce (noLoop : NoLoop db memos) (ends : ∀ memo ∈ db.memos, OuterEnd db memos memo →
      ¬ HiddenButReadable service db now authUserID viewer memo) :
    EachOnce service db now authUserID memos result := by
  intro r mem a there b there' source related readable readable' memo here which
  have known : a ∈ memos ++ extra := by
    refine batch.known_of_readable ends there readable fun outside => ⟨outside, r, mem, memo, here, ?_⟩
    rcases which with rfl | rfl
    · exact absurd here outside
    · exact .inr ⟨source, related⟩
  have known' : b ∈ memos ++ extra := by
    refine batch.known_of_readable ends there' readable' fun outside => ⟨outside, r, mem, memo, here, ?_⟩
    rcases which with rfl | rfl
    · exact .inl ⟨source, related⟩
    · exact absurd here outside
  rw [batch.count mem known known' source related here which]
  have loopless := noLoop r mem memo here
  rcases which with rfl | rfl
  · rw [if_pos source, if_neg fun is => loopless ⟨source, is⟩]
  · rw [if_pos related, if_neg fun is => loopless ⟨is, related⟩]

end OrdinaryBatch

end Ordinary

/-! ### The result -/

/-- **Which relations a batch shows.**

For every database, every list of memos that an ordinary viewer may read, and whether or
not snippets are asked for: whatever a message names is a memo of the database, with its
own snippet.

The messages name outside the list only what the viewer may read, and every stored
relation between readable memos stands exactly once at each end in the list, if and only
if no memo of the list is related to itself, and no relation leads out of the list to a
memo that only its category keeps from the viewer, or to somebody else's hidden memo that
the viewer may read. -/
theorem relations_agree_iff (service : APIV1Service)
    (getMemoContentSnippet : String → Except String String) (db : Tables) (now authUserID : Int)
    (viewer : Option UserRow) (memos : List MemoRow) (includeSnippets : Bool)
    (result : Int → List MemoRelationMessage)
    (fetched : fetchCurrentUser db.toState authUserID = .ok viewer)
    (ordinary : isSuperUser viewer = false)
    (listed : ∀ memo ∈ memos, memo ∈ db.memos ∧ CanRead service db now authUserID memo.uid)
    (converted : batchConvertMemoRelations getMemoContentSnippet db now authUserID memos
      includeSnippets = .ok result) :
    (∀ id, ∀ x ∈ result id, ∃ memo ∈ db.memos, ∃ relatedMemo ∈ db.memos,
      Describes getMemoContentSnippet includeSnippets memo x.memo ∧
      Describes getMemoContentSnippet includeSnippets relatedMemo x.relatedMemo) ∧
    (NamesReadable service db now authUserID memos result ∧
        EachOnce service db now authUserID memos result ↔
      NoLoop db memos ∧ ∀ memo ∈ db.memos, OuterEnd db memos memo →
        ¬ OutOfCategory service db now viewer memo ∧
          ¬ HiddenButReadable service db now authUserID viewer memo) := by
  by_cases given : memos = []
  · subst given
    injection converted with converted
    rw [← converted]
    refine ⟨fun _ x h => absurd h List.not_mem_nil, iff_of_true ⟨?_, ?_⟩ ⟨?_, ?_⟩⟩
    · exact fun _ x h => absurd h List.not_mem_nil
    · exact fun _ _ _ _ _ _ _ _ _ _ memo h => absurd h List.not_mem_nil
    · exact fun _ _ memo h => absurd h List.not_mem_nil
    · rintro memo - ⟨-, r, -, m, h, -⟩
      exact absurd h List.not_mem_nil
  · obtain ⟨extra, known, converts⟩ := converted_of_batch fetched given converted
    have batch : OrdinaryBatch service getMemoContentSnippet db now authUserID viewer memos
        includeSnippets result extra known := ⟨converts, fetched, ordinary, given, listed⟩
    refine ⟨?_, ?_⟩
    · intro id x mem
      obtain ⟨-, -, a, first, b, second, -, -, describes, describes', -, -⟩ := converts.sound given mem
      exact ⟨a, batch.stored first, b, batch.stored second, describes, describes'⟩
    · constructor
      · rintro ⟨names, once⟩
        exact ⟨batch.loopless once, fun memo there outer =>
          ⟨batch.not_outOfCategory names there outer, batch.not_hidden once there outer⟩⟩
      · rintro ⟨noLoop, ends⟩
        exact ⟨batch.namesReadable fun memo there outer => (ends memo there outer).1,
          batch.eachOnce noLoop fun memo there outer => (ends memo there outer).2⟩

/-! ### A recipe -/

def menuMemo : MemoRow := .withDefaults 7 "menu" 5 .Public none

def recipeMemo : MemoRow :=
  { MemoRow.withDefaults 8 "recipe" 5 .Public none with
    payload := { title := "", category := "kitchen" } }

def menuTables : Tables :=
  { secretTables with
    users := ⟨[.withDefaults 5 "lea", .withDefaults 6 "nia"], by decide, by decide⟩
    memos := ⟨[menuMemo, recipeMemo], by decide, by decide⟩
    relations := ⟨[⟨7, 8, .Reference⟩], by decide, by decide⟩ }

def kitchenService : APIV1Service :=
  { plainService with
    library :=
      { plainService.library with unmarshalCategories := fun _ => .ok [⟨"kitchen", "admin"⟩] }
    memoCategoriesJson := "categories" }

/-- Without the category the recipe is shown where it belongs. -/
theorem relations_agree_iff_menu : ∃ result,
    batchConvertMemoRelations .ok menuTables 60 6 [menuMemo] true = .ok result ∧
    NamesReadable plainService menuTables 60 6 [menuMemo] result ∧
    EachOnce plainService menuTables 60 6 [menuMemo] result := by
  refine ⟨_, rfl, (relations_agree_iff plainService .ok menuTables 60 6
    (some (.withDefaults 6 "nia")) [menuMemo] true _ rfl rfl ?_ rfl).2.mpr ⟨?_, ?_⟩⟩
  · intro memo mem
    rw [List.mem_singleton.mp mem]
    exact ⟨List.mem_cons_self, rfl⟩
  · rintro r mem memo here ⟨source, related⟩
    rw [List.mem_singleton.mp here] at source related
    rw [List.mem_singleton.mp mem] at related
    cases related
  · intro memo there _
    rcases List.mem_cons.mp there with rfl | there
    · refine ⟨?_, ?_⟩
      · rintro ⟨-, denied⟩
        cases denied
      · rintro ⟨-, hidden, -⟩
        cases hidden
    · rw [List.mem_singleton.mp there]
      refine ⟨?_, ?_⟩
      · rintro ⟨-, denied⟩
        cases denied
      · rintro ⟨-, hidden, -⟩
        cases hidden

/-- Nia's page with the menu, and the recipe at its foot. -/
theorem category_not_asked : ∃ result,
    batchConvertMemoRelations .ok menuTables 60 6 [menuMemo] true = .ok result ∧
    CanRead kitchenService menuTables 60 6 "menu" ∧
    (∃ x ∈ result 7, x.relatedMemo.name = buildMemoName "recipe") ∧
    ¬ CanRead kitchenService menuTables 60 6 "recipe" ∧
    ¬ NamesReadable kitchenService menuTables 60 6 [menuMemo] result := by
  refine ⟨_, rfl, rfl, ⟨_, List.mem_cons_self, rfl⟩, nofun, ?_⟩
  intro names
  have read := names 7 _ List.mem_cons_self recipeMemo (List.mem_cons_of_mem _ List.mem_cons_self)
    (by simp [menuMemo, recipeMemo, MemoRow.withDefaults]) (.inr rfl)
  cases read

end Memos.Api

/-
What is stored of the tags of a memo.

The stored list holds the tags of the document and their ancestors, each once.  It is the
least set of names that has the tags in it and is closed under ancestors, and none of its
names is empty, as no tag starts with a separator.

As no name is stored twice, a filter may compare sets of tags by their sizes.
-/
import Memos.Lib.Hierarchy
import Memos.Markdown.TagHierarchy
import Mathlib.Data.List.Perm.Subperm
import Memos.Proofs.Markdown.TagContext

namespace Memos.Markdown

open Hierarchy

variable {t : Tables}

/-! ### Without what is repeated -/

theorem mem_uniquePreserveCase {strs : List (List Char)} {s : List Char} :
    s ∈ uniquePreserveCase strs ↔ s ∈ strs := by
  have distinct : ∀ b ∈ strs, id b = id s → b = s := fun _ _ same => same
  rw [uniquePreserveCase, Firsts.mem_firsts distinct]
  exact and_iff_left List.not_mem_nil

theorem nodup_uniquePreserveCase (strs : List (List Char)) : (uniquePreserveCase strs).Nodup := by
  have once := Firsts.nodup_firsts id [] strs
  rw [List.map_id] at once
  exact once

/-! ### A tag and its ancestors -/

theorem indexSlash_some {s : List Char} {separator : Nat} (h : indexSlash s = some separator) :
    s = s.take separator ++ '/' :: s.drop (separator + 1) ∧ '/' ∉ s.take separator ∧
      s.take (separator + 1) = s.take separator ++ ['/'] := by
  obtain ⟨bound, slash, before⟩ := List.findIdx?_eq_some_iff_getElem.mp h
  have slash : s[separator] = '/' := of_decide_eq_true slash
  refine ⟨?_, ?_, ?_⟩
  · rw [← slash, ← List.drop_eq_getElem_cons bound, List.take_append_drop]
  · intro mem
    obtain ⟨i, hi, there⟩ := List.mem_take_iff_getElem.mp mem
    exact before i (by omega) (decide_eq_true there)
  · rw [List.take_succ_eq_append_getElem bound, slash]

theorem indexSlash_none {s : List Char} (h : indexSlash s = none) : '/' ∉ s := by
  intro mem
  have := List.findIdx?_eq_none_iff.mp h '/' mem
  simp at this

/-- The loop adds the rest of the value and the ancestors that end in it. -/
theorem mem_appendTagsFrom {tags : List (List Char)} {before after v : List Char} :
    v ∈ appendTagsFrom tags before after ↔
      v ∈ tags ∨ v = before ++ after ∨ ∃ a, v = before ++ a ∧ IsAncestor '/' a after := by
  fun_induction appendTagsFrom tags before after with
  | case1 tags before after last =>
      have free := indexSlash_none last
      rw [List.mem_append, List.mem_singleton]
      refine or_congr_right (iff_self_or.mpr ?_)
      rintro ⟨a, -, under⟩
      exact absurd under (not_isAncestor_of_free free)
  | case2 tags before after separator found bound ih =>
      obtain ⟨split, free, next⟩ := indexSlash_some found
      have ancestors : ∀ a, IsAncestor '/' a after ↔ a = after.take separator ∨
          ∃ a', a = after.take separator ++ '/' :: a' ∧
            IsAncestor '/' a' (after.drop (separator + 1)) := by
        intro a
        conv => lhs; rw [split]
        exact isAncestor_append_cons free
      rw [ih, List.mem_append, List.mem_singleton, List.append_assoc, List.take_append_drop, next]
      simp only [ancestors]
      constructor
      · rintro ((mem | rfl) | rfl | ⟨a, rfl, under⟩)
        · exact .inl mem
        · exact .inr (.inr ⟨_, rfl, .inl rfl⟩)
        · exact .inr (.inl rfl)
        · exact .inr (.inr ⟨_, by simp, .inr ⟨a, rfl, under⟩⟩)
      · rintro (mem | rfl | ⟨_, rfl, rfl | ⟨a, rfl, under⟩⟩)
        · exact .inl (.inl mem)
        · exact .inr (.inl rfl)
        · exact .inl (.inr rfl)
        · exact .inr (.inr ⟨a, by simp, under⟩)

theorem mem_appendTagHierarchy {tags : List (List Char)} {value v : List Char} :
    v ∈ appendTagHierarchy tags value ↔ v ∈ tags ∨ v = value ∨ IsAncestor '/' v value := by
  rw [appendTagHierarchy, mem_appendTagsFrom]
  simp only [List.nil_append, exists_eq_left']

theorem mem_foldl_appendTagHierarchy {tags : List (ExtractedTag t)} {found : List (List Char)}
    {v : List Char} :
    v ∈ tags.foldl (fun found tag => appendTagHierarchy found tag.value) found ↔
      v ∈ found ∨ ∃ tag ∈ tags, v = tag.value ∨ IsAncestor '/' v tag.value := by
  induction tags generalizing found with
  | nil => simp
  | cons tag tags ih =>
      rw [List.foldl_cons, ih, mem_appendTagHierarchy, List.exists_mem_cons_iff, or_assoc]

def namesOf (tags : List (ExtractedTag t)) : Set (List Char) := {v | ∃ tag ∈ tags, tag.value = v}

theorem mem_storedTags {tags : List (ExtractedTag t)} {v : List Char} :
    v ∈ storedTags tags ↔ v ∈ closure '/' (namesOf tags) := by
  rw [storedTags, mem_uniquePreserveCase, mem_foldl_appendTagHierarchy, mem_closure]
  constructor
  · rintro (mem | ⟨tag, mem, is⟩)
    · exact absurd mem List.not_mem_nil
    · exact ⟨tag.value, ⟨tag, mem, rfl⟩, is⟩
  · rintro ⟨_, ⟨tag, mem, rfl⟩, is⟩
    exact .inr ⟨tag, mem, is⟩

/-! ### No tag starts with a separator -/

theorem SegmentStarter.value_ne {s r value : List Char} {joinable : Bool}
    (h : SegmentStarter t s joinable r value) : value ≠ [] ∧ value.head? ≠ some '/' := by
  cases h with
  | emoji emoji rest split longest =>
      refine ⟨longest.ne_nil, fun slash => ?_⟩
      obtain ⟨rest, rfl⟩ := List.head?_eq_some_iff.mp slash
      have unknown := (t.syntax_code_point '/' (.inl rfl)).2.2 rest
      rw [longest.2.1] at unknown
      exact nomatch unknown
  | unit c rest joinable literal visible spacing starts =>
      refine ⟨List.cons_ne_nil c [], fun slash => ?_⟩
      obtain rfl : c = '/' := Option.some.inj slash
      rcases starts with xid | extension
      · exact (t.syntax_code_point '/' (.inl rfl)).1 xid.1.1
      · simp [Extension] at extension

theorem TagSourceSpelling.value_ne {s r value : List Char} (h : TagSourceSpelling t s r value) :
    value ≠ [] ∧ value.head? ≠ some '/' := by
  have segment : ∀ {s r value : List Char}, TagSegmentSpelling t s r value →
      value ≠ [] ∧ value.head? ≠ some '/' := by
    rintro s r value ⟨-, starter, -⟩
    have := starter.value_ne
    rw [List.head?_append_of_ne_nil _ this.1]
    exact ⟨fun both => this.1 (List.append_eq_nil_iff.mp both).1, this.2⟩
  cases h with
  | segment h => exact segment h
  | hierarchy h _ =>
      have := segment h
      rw [List.head?_append_of_ne_nil _ this.1]
      exact ⟨fun both => this.1 (List.append_eq_nil_iff.mp both).1, this.2⟩

theorem ExtractedTag.value_ne (tag : ExtractedTag t) :
    tag.value ≠ [] ∧ tag.value.head? ≠ some '/' := by
  obtain ⟨source, m, mem, same⟩ := tag.lexed
  obtain ⟨_, _, _, -, -, place, -⟩ := ((findTagMatches_correct t source).1 m).mp mem
  obtain ⟨_, -, ⟨_, -, derived⟩, -⟩ := place.introduced
  rw [← same]
  exact derived.value_ne

theorem nil_notMem_storedTags (tags : List (ExtractedTag t)) : [] ∉ storedTags tags := by
  rw [mem_storedTags]
  rintro ⟨_, ⟨tag, -, rfl⟩, same | ⟨rest, under⟩⟩
  · exact tag.value_ne.1 same.symm
  · exact tag.value_ne.2 (by rw [← under]; rfl)

/-! ### The walk -/

theorem NodeKind.addTags_eq (inLinkOrImage : Bool) (found : List (List Char)) (kind : NodeKind t) :
    kind.addTags inLinkOrImage found = (kind.memoTag inLinkOrImage).foldl
      (fun found tag => appendTagHierarchy found tag.value) found := by
  cases kind with
  | tag tag =>
      unfold NodeKind.addTags NodeKind.memoTag
      cases inLinkOrImage with
      | true => rfl
      | false => rfl
  | link => rfl
  | image => rfl
  | other => rfl

mutual

theorem Node.collectTags_eq (inLinkOrImage : Bool) (found : List (List Char)) (node : Node t) :
    node.collectTags inLinkOrImage found = (node.memoTags inLinkOrImage).foldl
      (fun found tag => appendTagHierarchy found tag.value) found := by
  obtain ⟨kind, children⟩ := node
  rw [Node.collectTags, Node.memoTags, List.foldl_append, collectChildren_eq, kind.addTags_eq]

theorem collectChildren_eq (inLinkOrImage : Bool) (found : List (List Char))
    (children : List (Node t)) :
    collectChildren inLinkOrImage found children = (memoTagsOfChildren inLinkOrImage children).foldl
      (fun found tag => appendTagHierarchy found tag.value) found := by
  cases children with
  | nil => rfl
  | cons child children =>
      rw [collectChildren, memoTagsOfChildren, List.foldl_append, child.collectTags_eq,
        collectChildren_eq]

end

theorem extractTags_eq (root : Node t) : extractTags root = storedTags (root.memoTags false) := by
  rw [extractTags, storedTags, root.collectTags_eq]

/-! ### Sets of tags -/

theorem setsEquivalent_iff {tags : List (List Char)} (distinct : tags.Nodup)
    (values : List (List Char)) :
    setsEquivalent tags values = true ↔ ∀ v, v ∈ tags ↔ v ∈ values := by
  have once : (distinctStrings values).Nodup := nodup_uniquePreserveCase values
  have mem : ∀ v, v ∈ distinctStrings values ↔ v ∈ values := fun v => mem_uniquePreserveCase
  rw [setsEquivalent, Bool.and_eq_true, List.all_eq_true, decide_eq_true_iff]
  constructor
  · rintro ⟨contained, size⟩ v
    have sub : distinctStrings values ⊆ tags := fun v hv => List.contains_iff_mem.mp (contained v hv)
    have perm := (once.subperm sub).perm_of_length_le size.le
    rw [← mem v]
    exact perm.mem_iff.symm
  · intro same
    have perm : tags.Perm (distinctStrings values) :=
      (List.perm_ext_iff_of_nodup distinct once).mpr fun v => (same v).trans (mem v).symm
    exact ⟨fun v hv => List.contains_iff_mem.mpr (perm.mem_iff.mpr hv), perm.length_eq⟩

/-- **The stored tags are the tags and their ancestors, each once.**

For every list of tags the stored list has no name twice and not the empty one.  Every tag
is in it, every ancestor of a name in it is in it, and nothing else is: each name is a tag
or an ancestor of one, and every set with the tags in it that is closed under ancestors has
the stored names in it.  Comparing sizes decides whether the stored names are those of
another list.  It is this list that the walk over a document leaves of its tags. -/
theorem storedTags_hierarchy (tags : List (ExtractedTag t)) :
    (storedTags tags).Nodup ∧ [] ∉ storedTags tags ∧
    (∀ tag ∈ tags, tag.value ∈ storedTags tags) ∧
    (∀ v ∈ storedTags tags, ∀ a, IsAncestor '/' a v → a ∈ storedTags tags) ∧
    (∀ v ∈ storedTags tags, ∃ tag ∈ tags, v = tag.value ∨ IsAncestor '/' v tag.value) ∧
    (∀ names, namesOf tags ⊆ names → (∀ v ∈ names, ∀ a, IsAncestor '/' a v → a ∈ names) →
      ∀ v ∈ storedTags tags, v ∈ names) ∧
    (∀ values, setsEquivalent (storedTags tags) values = true ↔
      ∀ v, v ∈ storedTags tags ↔ v ∈ values) ∧
    ∀ root : Node t, root.memoTags false = tags → extractTags root = storedTags tags := by
  have distinct : (storedTags tags).Nodup := nodup_uniquePreserveCase _
  refine ⟨distinct, nil_notMem_storedTags tags, ?_, ?_, ?_, ?_, setsEquivalent_iff distinct, ?_⟩
  · intro tag mem
    exact mem_storedTags.mpr ((closure '/').le_closure _ ⟨tag, mem, rfl⟩)
  · intro v stored a under
    have closed := isClosed_iff.mp ((closure '/').isClosed_closure (namesOf tags))
    exact mem_storedTags.mpr (closed v (mem_storedTags.mp stored) a under)
  · intro v stored
    obtain ⟨_, ⟨tag, mem, rfl⟩, is⟩ := mem_closure.mp (mem_storedTags.mp stored)
    exact ⟨tag, mem, is⟩
  · intro names holds closed v stored
    exact (closure '/').closure_min holds (isClosed_iff.mpr closed) (mem_storedTags.mp stored)
  · rintro root rfl
    exact extractTags_eq root

end Memos.Markdown

/-
A renamed tag and what stands around it.

The scanner reads a run piece by piece: the tags, and what it passes over.  Renaming puts
the new value in the place of some of them, and the text that comes of it is read as the
same pieces exactly when two things do not happen: that the new value runs together with
what follows it, and that an ampersand before it makes a character reference of it.
-/

namespace Memos.Markdown

open Utf8 Munch

variable {t : Tables}

/-! ### Pieces -/

inductive Piece where
  | gap (text : List Char)
  | tag (spelling value : List Char)

def Piece.source : Piece → List Char
  | .gap text => text
  | .tag spelling _ => '#' :: spelling

def Piece.rename (oldTag newTag : List Char) : Piece → Piece
  | .gap text => .gap text
  | .tag spelling value => if value = oldTag then .tag newTag newTag else .tag spelling value

def sourceOf : List Piece → List Char
  | [] => []
  | piece :: pieces => piece.source ++ sourceOf pieces

def matchesOf (pos : Nat) : List Piece → List TagMatch
  | [] => []
  | .gap text :: pieces => matchesOf (pos + byteLength text) pieces
  | .tag spelling value :: pieces =>
      ⟨pos, pos + byteLength ('#' :: spelling), value⟩ ::
        matchesOf (pos + byteLength ('#' :: spelling)) pieces

/-- How the scanner reads a run. -/
inductive Reading (t : Tables) : List Char → List Piece → Prop
  | nil : Reading t [] []
  | gap {text rest : List Char} {pieces : List Piece} (lexeme : Lexeme t (text ++ rest) text)
      (no_tag : ¬∃ spelling value, TagAt t (text ++ rest) spelling value)
      (tail : Reading t rest pieces) : Reading t (text ++ rest) (.gap text :: pieces)
  | tag {spelling value rest : List Char} {pieces : List Piece}
      (tag : TagAt t ('#' :: spelling ++ rest) spelling value) (tail : Reading t rest pieces) :
      Reading t ('#' :: spelling ++ rest) (.tag spelling value :: pieces)

variable {source : List Char} {pieces : List Piece}

theorem Reading.sourceOf (h : Reading t source pieces) : sourceOf pieces = source := by
  induction h with
  | nil => rfl
  | gap _ _ _ ih => rw [Markdown.sourceOf, ih, Piece.source]
  | tag _ _ ih => rw [Markdown.sourceOf, ih, Piece.source]

theorem Scan.reading {pos : Nat} {found : List TagMatch} (h : Scan t pos source found) :
    ∃ pieces, Reading t source pieces := by
  induction h with
  | done => exact ⟨[], .nil⟩
  | skip split lexeme no_tag _ ih =>
      obtain ⟨pieces, reading⟩ := ih
      subst split
      exact ⟨_, .gap lexeme no_tag reading⟩
  | tag split tag _ ih =>
      obtain ⟨pieces, reading⟩ := ih
      subst split
      exact ⟨_, .tag tag reading⟩

theorem exists_reading (t : Tables) (source : List Char) : ∃ pieces, Reading t source pieces :=
  (scan_findTagMatchesFrom source 0).reading

theorem Scan.unique {pos : Nat} {found found' : List TagMatch} (h : Scan t pos source found)
    (h' : Scan t pos source found') : found = found' := by
  induction h generalizing found' with
  | done =>
      cases h' with
      | done => rfl
      | skip split lexeme => exact absurd (List.append_eq_nil_iff.mp split.symm).1 lexeme.split.1
      | tag split => cases split
  | skip split lexeme no_tag _ ih =>
      cases h' with
      | done => exact absurd (List.append_eq_nil_iff.mp split.symm).1 lexeme.split.1
      | skip split' lexeme' _ tail' =>
          obtain rfl := lexeme.unique lexeme'
          obtain rfl := List.append_cancel_left (split.symm.trans split')
          exact ih tail'
      | tag split' tag => exact absurd ⟨_, _, tag⟩ no_tag
  | tag split tag _ ih =>
      cases h' with
      | done => cases split
      | skip _ _ no_tag => exact absurd ⟨_, _, tag⟩ no_tag
      | tag split' tag' tail' =>
          obtain ⟨rfl, rfl⟩ := tag.unique tag'
          obtain rfl := List.append_cancel_left (split.symm.trans split')
          rw [ih tail']

/-- The scanner goes on behind a lexeme. -/
theorem findTagMatchesFrom_gap {text rest : List Char} (lexeme : Lexeme t (text ++ rest) text)
    (no_tag : ¬∃ spelling value, TagAt t (text ++ rest) spelling value) (pos : Nat) :
    findTagMatchesFrom t (text ++ rest) pos = findTagMatchesFrom t rest (pos + byteLength text) :=
  (scan_findTagMatchesFrom _ pos).unique (.skip rfl lexeme no_tag (scan_findTagMatchesFrom _ _))

theorem findTagMatchesFrom_tag {spelling value rest : List Char}
    (tag : TagAt t ('#' :: spelling ++ rest) spelling value) (pos : Nat) :
    findTagMatchesFrom t ('#' :: spelling ++ rest) pos =
      ⟨pos, pos + byteLength ('#' :: spelling), value⟩ ::
        findTagMatchesFrom t rest (pos + byteLength ('#' :: spelling)) :=
  (scan_findTagMatchesFrom _ pos).unique (.tag rfl tag (scan_findTagMatchesFrom _ _))

theorem Reading.found (h : Reading t source pieces) (pos : Nat) :
    findTagMatchesFrom t source pos = matchesOf pos pieces := by
  induction h generalizing pos with
  | nil => rw [findTagMatchesFrom, matchesOf]
  | gap lexeme no_tag _ ih => rw [findTagMatchesFrom_gap lexeme no_tag, ih, matchesOf]
  | tag tag _ ih => rw [findTagMatchesFrom_tag tag, ih, matchesOf]

/-! ### Slices -/

/-- The pieces with the text between two tags put together. -/
def merge : List Char → List Piece → List Segment
  | text, [] => [.text text]
  | text, .gap more :: pieces => merge (text ++ more) pieces
  | text, .tag spelling value :: pieces =>
      .text text :: .tag ('#' :: spelling) value :: merge [] pieces

theorem slice_append (before text rest : List Char) :
    slice (before ++ text ++ rest) (byteLength before) (byteLength (before ++ text)) = text := by
  rw [slice, List.append_assoc, dropBytes_byteLength, byteLength_append, Nat.add_sub_cancel_left,
    takeBytes_byteLength]

theorem segmentsFrom_pieces (before text : List Char) (pieces : List Piece) :
    segmentsFrom (before ++ text ++ sourceOf pieces) (byteLength before)
      (matchesOf (byteLength (before ++ text)) pieces) = merge text pieces := by
  induction pieces generalizing before text with
  | nil =>
      rw [matchesOf, segmentsFrom, merge, sourceOf, List.append_nil, dropBytes_byteLength]
  | cons piece pieces ih =>
      cases piece with
      | gap more =>
          have step := ih before (text ++ more)
          rw [matchesOf, merge, ← step, ← byteLength_append, sourceOf, Piece.source]
          simp only [List.append_assoc]
      | tag spelling value =>
          have step := ih (before ++ text ++ '#' :: spelling) []
          rw [List.append_nil] at step
          have behind : before ++ text ++ sourceOf (.tag spelling value :: pieces) =
              before ++ text ++ '#' :: spelling ++ sourceOf pieces := by
            rw [sourceOf, Piece.source, List.append_assoc (before ++ text)]
          rw [matchesOf, segmentsFrom, merge, ← byteLength_append (before ++ text)]
          dsimp only
          rw [slice_append, behind, slice_append, step]

theorem replaceRanges_pieces (oldTag newTag before text : List Char) (pieces : List Piece) :
    replaceRanges (before ++ text ++ sourceOf pieces) newTag (byteLength before)
      (((matchesOf (byteLength (before ++ text)) pieces).filter fun m =>
        decide (m.value = oldTag ∧ m.start < m.stop)).map fun m => ⟨m.start, m.stop⟩) =
    text ++ sourceOf (pieces.map (Piece.rename oldTag newTag)) := by
  induction pieces generalizing before text with
  | nil =>
      rw [matchesOf, List.filter_nil, List.map_nil, replaceRanges, List.map_nil, sourceOf,
        List.append_nil, dropBytes_byteLength, List.append_nil]
  | cons piece pieces ih =>
      cases piece with
      | gap more =>
          have step := ih before (text ++ more)
          rw [matchesOf, ← byteLength_append, List.map_cons, sourceOf, sourceOf, Piece.source,
            Piece.rename, Piece.source, ← List.append_assoc text, ← step]
          simp only [List.append_assoc]
      | tag spelling value =>
          have behind : before ++ text ++ sourceOf (.tag spelling value :: pieces) =
              before ++ text ++ '#' :: spelling ++ sourceOf pieces := by
            rw [sourceOf, Piece.source, List.append_assoc (before ++ text)]
          have size : byteLength (before ++ text) < byteLength (before ++ text ++ '#' :: spelling) := by
            have := byteLength_pos (List.cons_ne_nil '#' spelling)
            rw [byteLength_append (before ++ text)]
            omega
          rw [matchesOf, ← byteLength_append (before ++ text), behind, List.map_cons, Piece.rename,
            List.filter_cons]
          by_cases renamed : value = oldTag
          · have step := ih (before ++ text ++ '#' :: spelling) []
            rw [List.append_nil, List.nil_append] at step
            rw [if_pos (decide_eq_true (And.intro renamed size)), List.map_cons, replaceRanges, step,
              if_pos renamed, List.append_assoc (before ++ text), slice_append]
            simp only [sourceOf, Piece.source, List.append_assoc]
          · have step := ih before (text ++ '#' :: spelling)
            rw [← List.append_assoc before] at step
            have kept : ¬decide (value = oldTag ∧ byteLength (before ++ text) <
                byteLength (before ++ text ++ '#' :: spelling)) = true :=
              fun same => renamed (of_decide_eq_true same).1
            rw [if_neg kept, if_neg renamed, step, sourceOf, Piece.source, List.append_assoc]

theorem RenameTag_reading (h : Reading t source pieces) (oldTag newTag : List Char) :
    RenameTag t source oldTag newTag = sourceOf (pieces.map (Piece.rename oldTag newTag)) := by
  have ordered : (tagRanges t source oldTag).Pairwise fun left right => left.start ≤ right.start := by
    obtain ⟨-, bounds, apart, -⟩ := findTagMatches_correct t source
    rw [tagRanges, List.pairwise_map]
    refine (apart.imp_of_mem fun {m next} hm _ behind => ?_).filter _
    have := (bounds m hm).1
    dsimp only
    omega
  have written := replaceRanges_pieces oldTag newTag [] [] pieces
  rw [List.append_nil, List.nil_append, List.nil_append, byteLength_nil, h.sourceOf, ← h.found] at written
  unfold RenameTag
  dsimp only
  rw [ordered.insertionSort_eq]
  exact written

theorem segments_reading (h : Reading t source pieces) : segments t source = merge [] pieces := by
  have cut := segmentsFrom_pieces [] [] pieces
  rw [List.append_nil, List.nil_append, byteLength_nil, h.sourceOf, ← h.found] at cut
  exact cut

end Memos.Markdown

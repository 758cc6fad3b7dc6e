/-
Where a renamed text is read as it was written.

The pieces of a run, with the new value in the place of the old one, are the pieces of the
text that comes of it when two things hold of every renamed tag: what follows it ends the
new value where it stands, and no ampersand before it begins a character reference.  A
longer tag may grow out of the new value and what follows, or a reference may swallow the
introducer; then the renamed text has other tags.
-/
import Memos.Proofs.Markdown.RenameTag

namespace Memos.Markdown

open Utf8 Munch

variable {t : Tables}

/-! ### The condition -/

/-- An ampersand that is read on its own ends the piece. -/
def Piece.EndsInAmpersand (oldTag : List Char) : Piece → Prop
  | .gap text => text = ['&']
  | .tag spelling value => value ≠ oldTag ∧ ('#' :: spelling).getLast? = some '&'

/-- The new value fits in where the old one stands. -/
structure Fits (t : Tables) (oldTag newTag : List Char) (pieces : List Piece) : Prop where
  /-- Unless the next tag is renamed too, the new value ends where it is written. -/
  behind : ∀ before spelling after, pieces = before ++ .tag spelling oldTag :: after →
    (∀ next rest, after ≠ .tag next oldTag :: rest) →
      scanTagIdentifier t (newTag ++ sourceOf after) = some (byteLength newTag, newTag)
  /-- The introducer is not part of a reference. -/
  before : ∀ before piece spelling after, pieces = before ++ piece :: .tag spelling oldTag :: after →
    piece.EndsInAmpersand oldTag →
      characterReferenceLength t ('&' :: '#' :: newTag ++ sourceOf after) = 0

/-- A name is valid if it is a tag of its own behind an introducer. -/
def ValidTag (t : Tables) (name : List Char) : Prop :=
  findTagMatches t ('#' :: name) = [⟨0, byteLength ('#' :: name), name⟩]

instance (t : Tables) (name : List Char) : Decidable (ValidTag t name) :=
  inferInstanceAs (Decidable (_ = _))

/-! ### Reading -/

variable {source text spelling value : List Char} {pieces : List Piece}

/-- The text of the pieces is read as these pieces. -/
def Reads (t : Tables) (pieces : List Piece) : Prop := Reading t (sourceOf pieces) pieces

theorem reads_gap : Reads t (.gap text :: pieces) ↔ Lexeme t (text ++ sourceOf pieces) text ∧
    (¬∃ spelling value, TagAt t (text ++ sourceOf pieces) spelling value) ∧ Reads t pieces := by
  constructor
  · intro h
    unfold Reads at h
    generalize whole : sourceOf (.gap text :: pieces) = source at h
    cases h with
    | gap lexeme no_tag tail =>
        obtain rfl := tail.sourceOf
        exact ⟨lexeme, no_tag, tail⟩
  · rintro ⟨lexeme, no_tag, tail⟩
    exact .gap lexeme no_tag tail

theorem reads_tag : Reads t (.tag spelling value :: pieces) ↔
    TagAt t ('#' :: spelling ++ sourceOf pieces) spelling value ∧ Reads t pieces := by
  constructor
  · intro h
    unfold Reads at h
    generalize whole : sourceOf (.tag spelling value :: pieces) = source at h
    cases h with
    | tag tag tail =>
        obtain rfl := tail.sourceOf
        exact ⟨tag, tail⟩
  · rintro ⟨tag, tail⟩
    exact .tag tag tail

theorem Reads.tail {piece : Piece} (h : Reads t (piece :: pieces)) : Reads t pieces := by
  cases piece with
  | gap => exact (reads_gap.mp h).2.2
  | tag => exact (reads_tag.mp h).2

theorem Reads.source_ne {piece : Piece} (h : Reads t (piece :: pieces)) : piece.source ≠ [] := by
  cases piece with
  | gap => exact (reads_gap.mp h).1.split.1
  | tag => exact List.cons_ne_nil _ _

theorem Reads.suffix {before : List Piece} (h : Reads t (before ++ pieces)) : Reads t pieces := by
  induction before with
  | nil => exact h
  | cons piece before ih => exact ih h.tail

theorem sourceOf_append (before after : List Piece) :
    sourceOf (before ++ after) = sourceOf before ++ sourceOf after := by
  induction before with
  | nil => rfl
  | cons piece before ih => rw [List.cons_append, sourceOf, sourceOf, ih, List.append_assoc]

/-- What the lexeme of a gap is. -/
theorem gap_cases (lexeme : Lexeme t (text ++ source) text)
    (no_tag : ¬∃ spelling value, TagAt t (text ++ source) spelling value) :
    FullyQualifiedEmoji t (text ++ source) text ∨ CharacterReference t text ∨
      (∃ c, text = ['\\', c] ∧ t.isPunct c = true) ∨
      ∃ c, text = [c] ∧ Literal t (c :: source) := by
  rcases lexeme with emoji | ⟨no_emoji, reference | ⟨no_reference, escape | ⟨no_escape,
    candidate | ⟨-, single⟩⟩⟩⟩
  · exact .inl emoji
  · exact .inr (.inl reference.2)
  · obtain ⟨c, rest, -, punct, rfl⟩ := escape
    exact .inr (.inr (.inl ⟨c, rfl, punct⟩))
  · obtain ⟨spelling, value, tag, -⟩ := candidate
    exact absurd ⟨spelling, value, tag⟩ no_tag
  · obtain ⟨c, rest, split, rfl⟩ := single
    obtain rfl := (List.cons.inj split).2
    exact .inr (.inr (.inr ⟨c, rfl, no_emoji, not_or.mpr ⟨no_reference, no_escape⟩⟩))

/-! ### Barriers between pieces -/

/-- An escape, and a tag that is renamed. -/
def Piece.isBarrier (oldTag : List Char) : Piece → Bool
  | .gap text => decide (text.head? = some '\\' ∧ text.length = 2)
  | .tag _ value => decide (value = oldTag)

theorem exists_barrier (oldTag : List Char) (pieces : List Piece) :
    ∃ kept behind, pieces = kept ++ behind ∧ (∀ piece ∈ kept, piece.isBarrier oldTag = false) ∧
      ∀ piece ∈ behind.head?, piece.isBarrier oldTag = true := by
  induction pieces with
  | nil => exact ⟨[], [], rfl, by simp, by simp⟩
  | cons piece pieces ih =>
      by_cases barrier : piece.isBarrier oldTag = true
      · refine ⟨[], piece :: pieces, rfl, by simp, ?_⟩
        intro first same
        rw [List.head?_cons, Option.mem_some_iff] at same
        exact same ▸ barrier
      · obtain ⟨kept, behind, rfl, plain, start⟩ := ih
        refine ⟨piece :: kept, behind, rfl, ?_, start⟩
        intro other mem
        rcases List.mem_cons.mp mem with rfl | mem
        · simpa using barrier
        · exact plain other mem

theorem Piece.rename_of_plain {oldTag newTag : List Char} {piece : Piece}
    (h : piece.isBarrier oldTag = false) : piece.rename oldTag newTag = piece := by
  cases piece with
  | gap => rfl
  | tag spelling value =>
      have other : value ≠ oldTag := of_decide_eq_false h
      exact if_neg other

theorem map_rename_of_plain {oldTag newTag : List Char} {kept : List Piece}
    (plain : ∀ piece ∈ kept, piece.isBarrier oldTag = false) :
    kept.map (Piece.rename oldTag newTag) = kept := by
  rw [List.map_congr_left fun piece mem => Piece.rename_of_plain (plain piece mem), List.map_id']

theorem CharacterReference.getLast {reference : List Char} (h : CharacterReference t reference) :
    reference.getLast? = some ';' := by
  cases h with
  | decimal digits => simp [List.getLast?_cons, List.getLast?_append]
  | hexadecimal x hx digits => simp [List.getLast?_cons, List.getLast?_append]
  | named name => simp [List.getLast?_cons, List.getLast?_append]

section

variable (generated : t.Generated) {oldTag newTag : List Char}

include generated

theorem no_emoji_ampersand (source : List Char) :
    ¬∃ emoji, FullyQualifiedEmoji t ('&' :: source) emoji := by
  rintro ⟨emoji, found⟩
  obtain ⟨more, rfl, -, known⟩ := found.cons
  exact (generated.emoji_plain _ known).1 List.mem_cons_self

/-- No reference begins with the last code point of what is no barrier. -/
theorem Reads.no_reference {piece : Piece} (h : Reads t (piece :: pieces))
    (plain : piece.isBarrier oldTag = false) (last : piece.source.getLast? = some '&') :
    ¬∃ reference, ReferenceAt t ('&' :: sourceOf pieces) reference := by
  cases piece with
  | tag spelling value => exact (reads_tag.mp h).1.no_reference generated last
  | gap text =>
      obtain ⟨lexeme, no_tag, -⟩ := reads_gap.mp h
      change text.getLast? = some '&' at last
      rcases gap_cases lexeme no_tag with emoji | reference | ⟨c, rfl, -⟩ | ⟨c, rfl, literal⟩
      · exact absurd (List.mem_of_getLast? last) (generated.emoji_plain _ emoji.2.1).1
      · rw [reference.getLast] at last
        cases last
      · cases plain
      · obtain rfl : c = '&' := Option.some.inj last
        exact fun found => literal.no_boundary (.inl found)

theorem Reads.no_reference_kept {kept behind : List Piece} (h : Reads t (kept ++ behind))
    (plain : ∀ piece ∈ kept, piece.isBarrier oldTag = false)
    (last : (sourceOf kept).getLast? = some '&') :
    ¬∃ reference, ReferenceAt t ('&' :: sourceOf behind) reference := by
  rcases List.eq_nil_or_concat kept with rfl | ⟨kept, piece, rfl⟩
  · cases last
  · rw [List.concat_eq_append] at h plain last
    have reads : Reads t (piece :: behind) := by
      rw [List.append_assoc] at h
      exact h.suffix
    refine reads.no_reference generated (plain piece (List.mem_append_right kept (by simp))) ?_
    rw [sourceOf_append, sourceOf, sourceOf, List.append_nil,
      List.getLast?_append_of_ne_nil _ reads.source_ne] at last
    exact last

/-- Behind pieces that are no barrier, one text of pieces may stand for the other. -/
theorem swap_of_reads {w : List Char} {kept behind behind' : List Piece}
    (reads : Reads t (kept ++ behind)) (reads' : Reads t (kept ++ behind'))
    (plain : ∀ piece ∈ kept, piece.isBarrier oldTag = false)
    (barrier : Barrier t (sourceOf behind)) (barrier' : Barrier t (sourceOf behind'))
    (edge : kept = [] → w.getLast? = some '&' →
      (¬∃ reference, ReferenceAt t ('&' :: sourceOf behind) reference) ∧
        ¬∃ reference, ReferenceAt t ('&' :: sourceOf behind') reference) :
    Swap t (w ++ sourceOf kept) (sourceOf behind) (sourceOf behind') := by
  have both : (w ++ sourceOf kept).getLast? = some '&' →
      (¬∃ reference, ReferenceAt t ('&' :: sourceOf behind) reference) ∧
        ¬∃ reference, ReferenceAt t ('&' :: sourceOf behind') reference := by
    intro last
    cases kept with
    | nil =>
        rw [sourceOf, List.append_nil] at last
        exact edge rfl last
    | cons piece kept =>
        have some : sourceOf (piece :: kept) ≠ [] := by
          intro none
          rw [sourceOf] at none
          exact reads.source_ne (List.append_eq_nil_iff.mp none).1
        rw [List.getLast?_append_of_ne_nil _ some] at last
        exact ⟨reads.no_reference_kept generated plain last,
          reads'.no_reference_kept generated plain last⟩
  exact ⟨barrier, barrier', fun last => (both last).1, fun last => (both last).2⟩

/-! ### The new value -/

theorem TagAt.clean (tag : TagAt t source spelling value) : Clean t value ∧ value ≠ [] := by
  obtain ⟨rest, -, longest⟩ := tag.introduced
  obtain ⟨j, r, -, path, -⟩ := longest.ends generated
  obtain ⟨r', -, derived⟩ := longest.derived
  exact ⟨clean_of_path generated path, derived.value_ne.1⟩

/-- Behind an introducer a value is no emoji, whatever follows. -/
theorem TagAt.no_emoji_value (tag : TagAt t source spelling value) (rest : List Char) :
    ¬∃ emoji, FullyQualifiedEmoji t ('#' :: (value ++ rest)) emoji := by
  obtain ⟨clean, some⟩ := tag.clean generated
  refine no_emoji_of_clean generated (.inr (.inr (.inr rfl))) ?_
  intro d head
  rw [List.head?_append_of_ne_nil _ some] at head
  exact (clean.starts d head).2

theorem TagAt.adjacent (valid : TagAt t ('#' :: newTag) newTag newTag) (rest : List Char) :
    TagAt t ('#' :: newTag ++ '#' :: (newTag ++ rest)) newTag newTag := by
  have barrier : Barrier t ('#' :: (newTag ++ rest)) :=
    .introducer (valid.no_emoji_value generated rest)
  have swap : Swap t ('#' :: newTag) [] ('#' :: (newTag ++ rest)) := by
    refine ⟨.nil, barrier, ?_, ?_⟩
    · rintro - ⟨reference, start, form⟩
      obtain ⟨d, more, rfl, -⟩ := form.plain generated
      rw [List.cons_prefix_cons] at start
      exact absurd (List.prefix_nil.mp start.2) (List.cons_ne_nil d more)
    · rintro last ⟨reference, start, form⟩
      obtain ⟨d, more, rfl, -, -, -, some, single⟩ := form.plain generated
      have semicolon := form.getLast
      obtain ⟨digits, c, rfl⟩ := (List.eq_nil_or_concat more).resolve_left some
      rw [List.concat_eq_append] at semicolon start single
      obtain rfl : c = ';' := by
        rw [← List.cons_append, ← List.cons_append, List.getLast?_concat] at semicolon
        exact Option.some.inj semicolon
      rw [List.cons_prefix_cons, List.cons_prefix_cons] at start
      obtain ⟨-, rfl, start⟩ := start
      -- Up to its semicolon, which the value has not, the reference has no ampersand.
      have none := notMem_of_prefix start (single rfl) (valid.clean generated).1.no_semicolon
      rw [List.getLast?_cons_of_ne_nil (valid.clean generated).2] at last
      exact none (List.mem_of_getLast? last)
  have alone : TagAt t ('#' :: newTag ++ []) newTag newTag := by
    rw [List.append_nil]
    exact valid
  exact alone.swap generated swap

/-! ### The renamed pieces -/

/-- Pieces cut at the first barrier. -/
structure Cut (t : Tables) (oldTag newTag : List Char) (pieces kept behind : List Piece) : Prop where
  whole : pieces = kept ++ behind
  plain : ∀ piece ∈ kept, piece.isBarrier oldTag = false
  barrier : Barrier t (sourceOf behind)
  barrier' : Barrier t (sourceOf (behind.map (Piece.rename oldTag newTag)))

omit generated in
theorem Cut.renamed {kept behind : List Piece} (cut : Cut t oldTag newTag pieces kept behind) :
    pieces.map (Piece.rename oldTag newTag) = kept ++ behind.map (Piece.rename oldTag newTag) := by
  rw [cut.whole, List.map_append, map_rename_of_plain cut.plain]

theorem exists_cut (valid : TagAt t ('#' :: newTag) newTag newTag) (reads : Reads t pieces) :
    ∃ kept behind, Cut t oldTag newTag pieces kept behind := by
  obtain ⟨kept, behind, rfl, plain, start⟩ := exists_barrier oldTag pieces
  have reads := reads.suffix
  suffices both : Barrier t (sourceOf behind) ∧
      Barrier t (sourceOf (behind.map (Piece.rename oldTag newTag))) from
    ⟨kept, behind, rfl, plain, both.1, both.2⟩
  cases behind with
  | nil => exact ⟨.nil, .nil⟩
  | cons piece behind =>
      have is_barrier := start piece rfl
      cases piece with
      | gap text =>
          obtain ⟨head, two⟩ := of_decide_eq_true is_barrier
          obtain ⟨more, rfl⟩ := List.head?_eq_some_iff.mp head
          obtain ⟨lexeme, no_tag, -⟩ := reads_gap.mp reads
          rcases gap_cases lexeme no_tag with emoji | reference | ⟨c, same, punct⟩ | ⟨c, same, -⟩
          · exact absurd rfl emoji.head_ne
          · obtain ⟨d, more, same, -⟩ := reference.plain generated
            cases same
          · rw [same] at is_barrier ⊢
            exact ⟨.escape punct, .escape punct⟩
          · rw [same] at two
            cases two
      | tag spelling value =>
          obtain rfl : value = oldTag := of_decide_eq_true is_barrier
          rw [List.map_cons, Piece.rename, if_pos rfl]
          exact ⟨.introducer (reads_tag.mp reads).1.no_emoji,
            .introducer (valid.no_emoji_value generated _)⟩

variable (valid : TagAt t ('#' :: newTag) newTag newTag)

include valid

theorem reference_renamed {c d : Char} {w : List Char} (reads : Reads t pieces) :
    (∃ reference, ReferenceAt t (c :: d :: w ++ sourceOf (pieces.map (Piece.rename oldTag newTag)))
      reference) ↔ ∃ reference, ReferenceAt t (c :: d :: w ++ sourceOf pieces) reference := by
  obtain ⟨kept, behind, cut⟩ : ∃ kept behind, Cut t oldTag newTag pieces kept behind :=
    exists_cut generated valid reads
  have before : ∀ behind', c :: d :: w ++ sourceOf (kept ++ behind') =
      c :: d :: (w ++ sourceOf kept) ++ sourceOf behind' := by
    intro behind'
    rw [sourceOf_append]
    simp only [List.cons_append, List.append_assoc]
  rw [cut.renamed, before, cut.whole, before]
  constructor
  · rintro ⟨reference, found⟩
    exact ⟨reference, found.swap_of generated cut.barrier'⟩
  · rintro ⟨reference, found⟩
    exact ⟨reference, found.swap_of generated cut.barrier⟩

theorem reference_unless_renamed (reads : Reads t pieces)
    (other : ∀ spelling rest, pieces ≠ .tag spelling oldTag :: rest) :
    (∃ reference, ReferenceAt t ('&' :: sourceOf (pieces.map (Piece.rename oldTag newTag)))
      reference) ↔ ∃ reference, ReferenceAt t ('&' :: sourceOf pieces) reference := by
  cases pieces with
  | nil => exact Iff.rfl
  | cons piece pieces =>
      have same : piece.rename oldTag newTag = piece := by
        cases piece with
        | gap => rfl
        | tag spelling value =>
            exact if_neg fun renamed => other spelling pieces (by rw [renamed])
      obtain ⟨d, w, split⟩ := List.exists_cons_of_ne_nil reads.source_ne
      rw [List.map_cons, same, sourceOf, sourceOf, split]
      exact reference_renamed generated valid reads.tail

theorem reference_before_renamed (reads : Reads t pieces) :
    (∃ reference, ReferenceAt t ('&' :: '#' :: newTag ++
      sourceOf (pieces.map (Piece.rename oldTag newTag))) reference) ↔
    0 < characterReferenceLength t ('&' :: '#' :: newTag ++ sourceOf pieces) := by
  rw [reference_renamed generated valid reads, characterReferenceLength_pos]

theorem tagAt_renamed {w : List Char} (reads : Reads t pieces)
    (reads' : Reads t (pieces.map (Piece.rename oldTag newTag)))
    (edge : ('#' :: w).getLast? = some '&' →
      (¬∃ reference, ReferenceAt t ('&' :: sourceOf pieces) reference) ∧
      ¬∃ reference, ReferenceAt t ('&' :: sourceOf (pieces.map (Piece.rename oldTag newTag)))
        reference) :
    TagAt t ('#' :: w ++ sourceOf (pieces.map (Piece.rename oldTag newTag))) spelling value ↔
      TagAt t ('#' :: w ++ sourceOf pieces) spelling value := by
  obtain ⟨kept, behind, cut⟩ : ∃ kept behind, Cut t oldTag newTag pieces kept behind :=
    exists_cut generated valid reads
  rw [cut.renamed] at reads' edge ⊢
  rw [cut.whole] at reads edge ⊢
  have swap := swap_of_reads generated reads reads' cut.plain cut.barrier cut.barrier' (w := '#' :: w)
    fun none last => by
      subst none
      exact edge last
  rw [sourceOf_append, sourceOf_append, ← List.append_assoc, ← List.append_assoc]
  constructor
  · exact fun tag => tag.swap generated swap.symm
  · exact fun tag => tag.swap generated swap

omit generated valid in
theorem head_renamed (reads : Reads t pieces) :
    (sourceOf (pieces.map (Piece.rename oldTag newTag))).head? = (sourceOf pieces).head? := by
  cases pieces with
  | nil => rfl
  | cons piece pieces =>
      cases piece with
      | gap text =>
          have some : text ≠ [] := reads.source_ne
          rw [List.map_cons, Piece.rename, sourceOf, sourceOf, Piece.source,
            List.head?_append_of_ne_nil _ some, List.head?_append_of_ne_nil _ some]
      | tag spelling value =>
          rw [List.map_cons, Piece.rename]
          by_cases renamed : value = oldTag
          · rw [if_pos renamed]
            rfl
          · rw [if_neg renamed]
            rfl

/-- What is read between tags is read in the renamed text, unless a tag or a reference starts
there. -/
theorem lexeme_renamed (reads : Reads t (.gap text :: pieces))
    (no_tag : ¬∃ spelling value, TagAt t
      (text ++ sourceOf (pieces.map (Piece.rename oldTag newTag))) spelling value)
    (no_reference : text = ['&'] → ∀ spelling rest, pieces = .tag spelling oldTag :: rest →
      ¬∃ reference, ReferenceAt t
        ('&' :: sourceOf (pieces.map (Piece.rename oldTag newTag))) reference) :
    Lexeme t (text ++ sourceOf (pieces.map (Piece.rename oldTag newTag))) text := by
  obtain ⟨lexeme, no_tag₀, tail⟩ := reads_gap.mp reads
  obtain ⟨kept, behind, cut⟩ : ∃ kept behind, Cut t oldTag newTag pieces kept behind :=
    exists_cut generated valid tail
  have emoji_renamed : ∀ {c : Char} {w emoji : List Char} {one other : List Piece},
      Barrier t (sourceOf one) → Barrier t (sourceOf other) →
      FullyQualifiedEmoji t (c :: w ++ sourceOf (kept ++ one)) emoji →
      FullyQualifiedEmoji t (c :: w ++ sourceOf (kept ++ other)) emoji := by
    intro c w emoji one other barrier barrier' found
    rw [sourceOf_append, ← List.append_assoc, List.cons_append] at found ⊢
    exact found.swap generated barrier barrier'
  rcases gap_cases lexeme no_tag₀ with emoji | reference | ⟨c, rfl, punct⟩ | ⟨c, rfl, literal⟩
  · obtain ⟨c, w, rfl⟩ := List.exists_cons_of_ne_nil emoji.ne_nil
    rw [cut.whole] at emoji
    rw [cut.renamed]
    exact .inl (emoji_renamed cut.barrier cut.barrier' emoji)
  · refine .inr ⟨?_, .inl ⟨List.prefix_append _ _, reference⟩⟩
    obtain ⟨d, more, rfl, -⟩ := reference.plain generated
    exact no_emoji_ampersand generated _
  · refine .inr ⟨fun ⟨emoji, found⟩ => found.head_ne rfl, .inr ⟨?_, .inl ⟨c, _, rfl, punct, rfl⟩⟩⟩
    rintro ⟨reference, found⟩
    cases found.head
  · refine .inr ⟨?_, .inr ⟨?_, .inr ⟨?_, .inr ⟨?_, c, _, rfl, rfl⟩⟩⟩⟩
    · rintro ⟨emoji, found⟩
      rw [cut.renamed] at found
      refine literal.no_emoji ⟨emoji, ?_⟩
      rw [cut.whole]
      exact emoji_renamed (w := []) cut.barrier' cut.barrier found
    · rintro ⟨reference, found⟩
      obtain rfl := found.head
      by_cases renamed : ∃ spelling rest, pieces = .tag spelling oldTag :: rest
      · obtain ⟨spelling, rest, same⟩ := renamed
        exact no_reference rfl spelling rest same ⟨reference, found⟩
      · rw [not_exists] at renamed
        refine literal.no_boundary (.inl ?_)
        exact (reference_unless_renamed generated valid tail fun spelling rest same =>
          renamed spelling ⟨rest, same⟩).mp ⟨reference, found⟩
    · rintro ⟨escape, d, rest, split, punct, -⟩
      rw [List.singleton_append, List.cons.injEq] at split
      obtain ⟨rfl, behind_escape⟩ := split
      have head : (sourceOf (pieces.map (Piece.rename oldTag newTag))).head? = _ := head_renamed tail
      rw [behind_escape, List.head?_cons] at head
      obtain ⟨rest', split'⟩ := List.head?_eq_some_iff.mp head.symm
      exact literal.no_boundary (.inr ⟨_, d, rest', by rw [split'], punct, rfl⟩)
    · rintro ⟨candidate, spelling, value, tag, -⟩
      exact no_tag ⟨spelling, value, tag⟩

/-! ### What fits is read back -/

omit generated valid in
theorem Fits.tail {piece : Piece} (fits : Fits t oldTag newTag (piece :: pieces)) :
    Fits t oldTag newTag pieces := by
  constructor
  · rintro before spelling after rfl
    exact fits.behind (piece :: before) spelling after rfl
  · rintro before other spelling after rfl
    exact fits.before (piece :: before) other spelling after rfl

omit generated valid in
theorem Piece.EndsInAmpersand.plain {piece : Piece} (h : piece.EndsInAmpersand oldTag) :
    piece.isBarrier oldTag = false ∧ piece.source.getLast? = some '&' := by
  cases piece with
  | gap text =>
      obtain rfl : text = ['&'] := h
      exact ⟨rfl, rfl⟩
  | tag spelling value =>
      obtain ⟨other, last⟩ := h
      exact ⟨decide_eq_false other, last⟩

/-- Where the new value fits, no reference begins with an ampersand before an introducer. -/
theorem Fits.no_reference {piece : Piece} (fits : Fits t oldTag newTag (piece :: pieces))
    (reads : Reads t (piece :: pieces)) (ends : piece.EndsInAmpersand oldTag) :
    ¬∃ reference, ReferenceAt t ('&' :: sourceOf (pieces.map (Piece.rename oldTag newTag)))
      reference := by
  by_cases renamed : ∃ spelling rest, pieces = .tag spelling oldTag :: rest
  · obtain ⟨spelling, rest, rfl⟩ := renamed
    have zero := fits.before [] piece spelling rest rfl ends
    rw [List.map_cons, Piece.rename, if_pos rfl, sourceOf, Piece.source]
    intro found
    have := (reference_before_renamed generated valid reads.tail.tail).mp found
    omega
  · rw [not_exists] at renamed
    rw [reference_unless_renamed generated valid reads.tail fun spelling rest same =>
      renamed spelling ⟨rest, same⟩]
    exact reads.no_reference generated ends.plain.1 ends.plain.2

omit valid in
theorem tagAt_of_scan {rest : List Char} (valid : TagAt t ('#' :: newTag) newTag newTag)
    (scanned : scanTagIdentifier t (newTag ++ rest) = some (byteLength newTag, newTag)) :
    TagAt t ('#' :: newTag ++ rest) newTag newTag := by
  refine ⟨valid.no_emoji_value generated rest, newTag ++ rest, rfl, ?_⟩
  rcases scanTagIdentifier_spec (t := t) (newTag ++ rest) with
    ⟨spelling, value, longest, result⟩ | ⟨-, none⟩
  · rw [scanned, Option.some.injEq, Prod.mk.injEq] at result
    obtain ⟨size, rfl⟩ := result
    obtain ⟨r, split, -⟩ := longest.derived
    have same : newTag = spelling := by
      rw [← takeBytes_byteLength newTag rest, size, split, takeBytes_byteLength]
    rw [← same] at longest
    exact longest
  · rw [none] at scanned
    cases scanned

omit generated valid in
theorem scan_of_tagAt {rest : List Char} (tag : TagAt t ('#' :: newTag ++ rest) newTag newTag) :
    scanTagIdentifier t (newTag ++ rest) = some (byteLength newTag, newTag) := by
  obtain ⟨s, split, longest⟩ := tag.introduced
  obtain rfl : newTag ++ rest = s := (List.cons.inj split).2
  rcases scanTagIdentifier_spec (t := t) (newTag ++ rest) with
    ⟨spelling, value, longest', result⟩ | ⟨underivable, -⟩
  · obtain ⟨rfl, rfl⟩ := longest.unique longest'
    exact result
  · obtain ⟨r, -, derived⟩ := longest.derived
    exact absurd ⟨r, newTag, derived⟩ underivable

/-- No tag starts in the renamed text where none starts in the source. -/
theorem no_tag_renamed (reads : Reads t (.gap text :: pieces))
    (reads' : Reads t (pieces.map (Piece.rename oldTag newTag))) :
    ¬∃ spelling value, TagAt t
      (text ++ sourceOf (pieces.map (Piece.rename oldTag newTag))) spelling value := by
  obtain ⟨lexeme, no_tag, tail⟩ := reads_gap.mp reads
  rintro ⟨spelling, value, tag⟩
  obtain ⟨rest, split, -⟩ := tag.introduced
  rcases gap_cases lexeme no_tag with emoji | reference | ⟨c, rfl, -⟩ | ⟨c, rfl, -⟩
  · obtain ⟨kept, behind, cut⟩ : ∃ kept behind, Cut t oldTag newTag pieces kept behind :=
      exists_cut generated valid tail
    obtain ⟨c, w, rfl⟩ := List.exists_cons_of_ne_nil emoji.ne_nil
    rw [cut.whole, sourceOf_append, ← List.append_assoc, List.cons_append] at emoji
    refine tag.no_emoji ⟨c :: w, ?_⟩
    rw [cut.renamed, sourceOf_append, ← List.append_assoc, List.cons_append]
    exact emoji.swap generated cut.barrier cut.barrier'
  · obtain ⟨d, more, rfl, -⟩ := reference.plain generated
    cases split
  · cases split
  · obtain rfl : c = '#' := (List.cons.inj split).1
    refine no_tag ⟨spelling, value, ?_⟩
    exact (tagAt_renamed (w := []) generated valid tail reads' nofun).mp tag

/-- **What fits is read as the renamed pieces.** -/
theorem Reads.renamed (reads : Reads t pieces) (fits : Fits t oldTag newTag pieces) :
    Reads t (pieces.map (Piece.rename oldTag newTag)) := by
  induction pieces with
  | nil => exact .nil
  | cons piece pieces ih =>
      have reads' := ih reads.tail fits.tail
      cases piece with
      | gap text =>
          have no_tag := no_tag_renamed generated valid reads reads'
          refine reads_gap.mpr ⟨lexeme_renamed generated valid reads no_tag ?_, no_tag, reads'⟩
          rintro rfl - - -
          exact fits.no_reference generated valid reads rfl
      | tag spelling value =>
          obtain ⟨tag, tail⟩ := reads_tag.mp reads
          rw [List.map_cons, Piece.rename]
          by_cases renamed : value = oldTag
          · subst renamed
            rw [if_pos rfl]
            refine reads_tag.mpr ⟨?_, reads'⟩
            by_cases next : ∃ spelling rest, pieces = .tag spelling value :: rest
            · obtain ⟨spelling', rest, rfl⟩ := next
              rw [List.map_cons, Piece.rename, if_pos rfl, sourceOf, Piece.source]
              exact valid.adjacent generated _
            · have other : ∀ spelling rest, pieces ≠ .tag spelling value :: rest :=
                fun spelling rest same => next ⟨spelling, rest, same⟩
              have here := tagAt_of_scan generated valid (fits.behind [] spelling pieces rfl other)
              refine (tagAt_renamed generated valid tail reads' fun last => ?_).mpr here
              have none := here.no_reference generated last
              exact ⟨none, (reference_unless_renamed generated valid tail other).not.mpr none⟩
          · rw [if_neg renamed]
            refine reads_tag.mpr ⟨?_, reads'⟩
            refine (tagAt_renamed generated valid tail reads' fun last => ?_).mpr tag
            exact ⟨tag.no_reference generated last,
              fits.no_reference generated valid reads ⟨renamed, last⟩⟩

/-- **What is read as the renamed pieces fits.** -/
theorem fits_of_reads (reads : Reads t pieces)
    (reads' : Reads t (pieces.map (Piece.rename oldTag newTag))) : Fits t oldTag newTag pieces := by
  constructor
  · rintro before spelling after rfl other
    have tail := reads.suffix.tail
    rw [List.map_append, List.map_cons, Piece.rename, if_pos rfl] at reads'
    obtain ⟨tag, tail'⟩ := reads_tag.mp reads'.suffix
    refine scan_of_tagAt ((tagAt_renamed generated valid tail tail' fun last => ?_).mp tag)
    have none := tag.no_reference generated last
    exact ⟨(reference_unless_renamed generated valid tail other).not.mp none, none⟩
  · rintro before piece spelling after rfl ends
    have tail := reads.suffix.tail.tail
    obtain ⟨plain, last⟩ := ends.plain
    rw [List.map_append, List.map_cons, List.map_cons, Piece.rename_of_plain plain] at reads'
    have none := reads'.suffix.no_reference generated plain last
    rw [Piece.rename, if_pos rfl, sourceOf, Piece.source] at none
    have := (reference_before_renamed generated valid tail).not.mp none
    omega

/-! ### What is found is read back -/

omit generated valid in
theorem matchesOf_start {pos : Nat} : ∀ m ∈ matchesOf pos pieces, pos ≤ m.start := by
  induction pieces generalizing pos with
  | nil => exact nofun
  | cons piece pieces ih =>
      intro m mem
      cases piece with
      | gap text =>
          have := ih m mem
          omega
      | tag spelling value =>
          rw [matchesOf] at mem
          rcases List.mem_cons.mp mem with rfl | mem
          · exact Nat.le_refl pos
          · have := ih m mem
            omega

omit generated valid in
/-- A tag at the start is the first one found, with all of its spelling. -/
theorem tagAt_of_found {pos : Nat} {rest : List Char} {found : List TagMatch}
    (h : findTagMatchesFrom t ('#' :: spelling ++ rest) pos =
      ⟨pos, pos + byteLength ('#' :: spelling), value⟩ :: found) :
    TagAt t ('#' :: spelling ++ rest) spelling value ∧
      findTagMatchesFrom t rest (pos + byteLength ('#' :: spelling)) = found := by
  have scan := scan_findTagMatchesFrom (t := t) ('#' :: spelling ++ rest) pos
  rw [h] at scan
  generalize first : TagMatch.mk pos (pos + byteLength ('#' :: spelling)) value = m at scan
  generalize whole : '#' :: spelling ++ rest = source at scan
  cases scan with
  | skip split lexeme no_tag tail =>
      have bound := (tail.bounds m List.mem_cons_self).1
      rw [← first] at bound
      have := byteLength_pos lexeme.split.1
      dsimp only at bound
      omega
  | @tag _ _ spelling' value' rest' _ split tag tail =>
      obtain ⟨-, size, rfl⟩ := TagMatch.mk.inj first
      have size := Nat.add_left_cancel size
      have same : '#' :: spelling = '#' :: spelling' := by
        rw [← takeBytes_byteLength ('#' :: spelling) rest, size, whole, split, takeBytes_byteLength]
      obtain rfl := (List.cons.inj same).2
      subst whole
      obtain rfl := List.append_cancel_left split
      exact ⟨tag, (scan_findTagMatchesFrom _ _).unique tail⟩

/-- **What is found where the renamed tags were written is read as them.** -/
theorem reads_of_found (reads : Reads t pieces) (pos : Nat)
    (found : findTagMatchesFrom t (sourceOf (pieces.map (Piece.rename oldTag newTag))) pos =
      matchesOf pos (pieces.map (Piece.rename oldTag newTag))) :
    Reads t (pieces.map (Piece.rename oldTag newTag)) := by
  induction pieces generalizing pos with
  | nil => exact .nil
  | cons piece pieces ih =>
      cases piece with
      | gap text =>
          rw [List.map_cons, Piece.rename, sourceOf, Piece.source, matchesOf] at found
          have some : 0 < byteLength text := byteLength_pos reads.source_ne
          have no_tag : ¬∃ spelling value, TagAt t
              (text ++ sourceOf (pieces.map (Piece.rename oldTag newTag))) spelling value := by
            rintro ⟨spelling, value, tag⟩
            obtain ⟨rest, split⟩ := tag.split
            rw [split] at tag found
            rw [← List.cons_append] at tag found
            rw [findTagMatchesFrom_tag tag] at found
            have bound := matchesOf_start _ (found ▸ List.mem_cons_self)
            dsimp only at bound
            omega
          have lexeme := lexeme_renamed generated valid reads no_tag (by
            rintro rfl spelling rest rfl ⟨reference, here⟩
            -- The reference swallows the introducer of the tag that was written.
            have lexeme : Lexeme t _ reference := .inr ⟨no_emoji_ampersand generated _, .inl here⟩
            obtain ⟨behind, split⟩ := here.1
            rw [← split] at lexeme
            rw [List.singleton_append, ← split] at no_tag found
            rw [findTagMatchesFrom_gap lexeme no_tag, List.map_cons, Piece.rename, if_pos rfl,
              matchesOf] at found
            have bound := ((scan_findTagMatchesFrom (t := t) behind _).bounds _
              (found ▸ List.mem_cons_self)).1
            have long := here.2.three_le
            have short : byteLength ['&'] = 1 := rfl
            dsimp only at bound
            omega)
          rw [findTagMatchesFrom_gap lexeme no_tag] at found
          exact reads_gap.mpr ⟨lexeme, no_tag, ih reads.tail _ found⟩
      | tag spelling value =>
          rw [List.map_cons, Piece.rename] at found ⊢
          by_cases renamed : value = oldTag
          · rw [if_pos renamed] at found ⊢
            obtain ⟨tag, rest⟩ := tagAt_of_found found
            exact reads_tag.mpr ⟨tag, ih reads.tail _ rest⟩
          · rw [if_neg renamed] at found ⊢
            obtain ⟨tag, rest⟩ := tagAt_of_found found
            exact reads_tag.mpr ⟨tag, ih reads.tail _ rest⟩

end

/-! ### Segments -/

def tagsOf (pos : Nat) : List Segment → List TagMatch
  | [] => []
  | .text text :: segments => tagsOf (pos + byteLength text) segments
  | .tag text value :: segments =>
      ⟨pos, pos + byteLength text, value⟩ :: tagsOf (pos + byteLength text) segments

theorem tagsOf_merge (pos : Nat) :
    tagsOf pos (merge text pieces) = matchesOf (pos + byteLength text) pieces := by
  induction pieces generalizing pos text with
  | nil => rfl
  | cons piece pieces ih =>
      cases piece with
      | gap more => rw [merge, ih, matchesOf, byteLength_append, Nat.add_assoc]
      | tag spelling value =>
          rw [merge, tagsOf, tagsOf, ih, matchesOf, byteLength_nil, Nat.add_zero]

theorem merge_rename (oldTag newTag : List Char) :
    (merge text pieces).map (Segment.rename oldTag newTag) =
      merge text (pieces.map (Piece.rename oldTag newTag)) := by
  induction pieces generalizing text with
  | nil => rfl
  | cons piece pieces ih =>
      cases piece with
      | gap more => exact ih
      | tag spelling value =>
          rw [merge, List.map_cons, List.map_cons, ih, List.map_cons, Piece.rename]
          by_cases renamed : value = oldTag
          · rw [if_pos renamed, merge, Segment.rename, Segment.rename, if_pos renamed]
          · rw [if_neg renamed, merge, Segment.rename, Segment.rename, if_neg renamed]

theorem ValidTag.tagAt {name : List Char} (h : ValidTag t name) : TagAt t ('#' :: name) name name := by
  have found : findTagMatchesFrom t ('#' :: name ++ []) 0 =
      [⟨0, 0 + byteLength ('#' :: name), name⟩] := by
    rw [List.append_nil, Nat.zero_add]
    exact h
  have tag := (tagAt_of_found found).1
  rwa [List.append_nil] at tag

/-- **A renamed text is read back as the tags that were renamed, exactly if the new name fits.** -/
theorem segments_RenameTag_iff (t : Tables) (generated : t.Generated) (oldTag newTag : List Char)
    (valid : ValidTag t newTag) (content : List Char) (pieces : List Piece)
    (reading : Reading t content pieces) :
    segments t (RenameTag t content oldTag newTag) =
        (segments t content).map (Segment.rename oldTag newTag) ↔
      Fits t oldTag newTag pieces := by
  obtain rfl := reading.sourceOf
  have reads : Reads t pieces := reading
  rw [segments_reading reading, merge_rename, RenameTag_reading reading]
  constructor
  · intro same
    obtain ⟨others, reading'⟩ := exists_reading t (sourceOf (pieces.map (Piece.rename oldTag newTag)))
    rw [segments_reading reading'] at same
    have tags := congrArg (tagsOf 0) same
    rw [tagsOf_merge, tagsOf_merge, byteLength_nil, Nat.zero_add, ← reading'.found] at tags
    exact fits_of_reads generated valid.tagAt reads
      (reads_of_found generated valid.tagAt reads 0 tags)
  · intro fits
    exact segments_reading (reads.renamed generated valid.tagAt fits)

theorem segments_RenameTag_iff_b :
    segments sampleTables (RenameTag sampleTables ['#', 'b'] ['b'] ['R', '&', 'D']) =
        (segments sampleTables ['#', 'b']).map (Segment.rename ['b'] ['R', '&', 'D']) ↔
      Fits sampleTables ['b'] ['R', '&', 'D'] [.tag ['b'] ['b']] := by
  have valid : ValidTag sampleTables ['b'] := by decide +kernel
  have reading : Reading sampleTables ('#' :: ['b'] ++ []) [.tag ['b'] ['b']] := .tag valid.tagAt .nil
  exact segments_RenameTag_iff sampleTables sampleTables_generated ['b'] ['R', '&', 'D']
    (by decide +kernel) ['#', 'b'] _ reading

/-- An emoji before an apostrophe does not run on, but a letter does. -/
theorem renamed_emoji_runs_on :
    ValidTag sampleTables keycap ∧ ValidTag sampleTables ['a'] ∧
    findTagMatches sampleTables ('#' :: keycap ++ ['\'', 'b']) = [⟨0, 8, keycap⟩] ∧
    RenameTag sampleTables ('#' :: keycap ++ ['\'', 'b']) keycap ['a'] = ['#', 'a', '\'', 'b'] ∧
    findTagMatches sampleTables ['#', 'a', '\'', 'b'] = [⟨0, 4, ['a', '\'', 'b']⟩] ∧
    segments sampleTables (RenameTag sampleTables ('#' :: keycap ++ ['\'', 'b']) keycap ['a']) ≠
      (segments sampleTables ('#' :: keycap ++ ['\'', 'b'])).map (Segment.rename keycap ['a']) := by
  refine ⟨by decide +kernel, by decide +kernel, by decide +kernel, by decide +kernel,
    by decide +kernel, ?_⟩
  intro same
  have tags := congrArg (tagsOf 0) same
  revert tags
  decide +kernel

end Memos.Markdown

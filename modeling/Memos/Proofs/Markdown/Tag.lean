/-
The tags of a run.

The enumeration reads one lexeme after the other.  What is read at a position is
determined by the priority between lexemes, so the positions the enumeration comes by
are determined too, and a tag is there or is not.  The loop of the scanner reads the
same lexemes and keeps the tags among them; that they are in order, apart and in bounds
is read off the loop, and that none is missing is that every position is either come by
or inside something that was read as one.
-/
import Memos.Proofs.Markdown.Scanner

namespace Memos.Markdown

open Utf8 Munch

variable {t : Tables}

/-! ### Lexemes -/

theorem TagAt.unique {source spelling spelling' value value' : List Char}
    (h : TagAt t source spelling value) (h' : TagAt t source spelling' value') :
    spelling = spelling' ∧ value = value' := by
  obtain ⟨rest, rfl, longest⟩ := h.introduced
  obtain ⟨rest', split, longest'⟩ := h'.introduced
  obtain rfl := (List.cons.inj split).2
  exact longest.unique longest'

theorem Lexeme.unique {source text text' : List Char} (h : Lexeme t source text)
    (h' : Lexeme t source text') : text = text' := by
  refine FirstOf.unique ?_ (FirstOf.unique ?_ (FirstOf.unique ?_ (FirstOf.unique ?_ ?_))) _ _ h h'
  · exact fun _ _ h h' => h.unique h'
  · exact fun _ _ h h' => h.unique h'
  · rintro _ _ ⟨c, rest, rfl, -, rfl⟩ ⟨c', rest', split, -, rfl⟩
    rw [(List.cons.inj (List.cons.inj split).2).1]
  · rintro _ _ ⟨spelling, value, h, rfl⟩ ⟨spelling', value', h', rfl⟩
    rw [(h.unique h').1]
  · rintro _ _ ⟨c, rest, rfl, rfl⟩ ⟨c', rest', split, rfl⟩
    rw [(List.cons.inj split).1]

theorem TagAt.lexeme {source spelling value : List Char} (h : TagAt t source spelling value) :
    Lexeme t source ('#' :: spelling) := by
  refine .inr ⟨h.no_emoji, .inr ⟨?_, .inr ⟨?_, .inl ⟨spelling, value, h, rfl⟩⟩⟩⟩
  · obtain ⟨rest, rfl, -⟩ := h.introduced
    rintro ⟨reference, at_start⟩
    exact absurd at_start.head (by decide)
  · obtain ⟨rest, rfl, -⟩ := h.introduced
    rintro ⟨escape, c, rest', split, -⟩
    exact absurd (List.cons.inj split).1 (by decide)

theorem TagAt.split {source spelling value : List Char} (h : TagAt t source spelling value) :
    ∃ rest, source = '#' :: (spelling ++ rest) := by
  obtain ⟨after, rfl, longest⟩ := h.introduced
  obtain ⟨rest, rfl, -⟩ := longest.derived
  exact ⟨rest, rfl⟩

theorem Lexeme.split {source text : List Char} (h : Lexeme t source text) :
    text ≠ [] ∧ ∃ rest, source = text ++ rest := by
  rcases h with emoji | ⟨-, reference | ⟨-, escape | ⟨-, candidate | ⟨-, single⟩⟩⟩⟩
  · obtain ⟨rest, split⟩ := emoji.1
    exact ⟨emoji.ne_nil, rest, split.symm⟩
  · obtain ⟨rest, split⟩ := reference.1
    refine ⟨?_, rest, split.symm⟩
    rintro rfl
    exact absurd reference.2.three_le (by decide)
  · obtain ⟨c, rest, rfl, -, rfl⟩ := escape
    exact ⟨by simp, rest, rfl⟩
  · obtain ⟨spelling, value, h, rfl⟩ := candidate
    obtain ⟨rest, split⟩ := h.split
    exact ⟨by simp, rest, split⟩
  · obtain ⟨c, rest, rfl, rfl⟩ := single
    exact ⟨by simp, rest, rfl⟩

theorem exists_lexeme {source : List Char} (h : source ≠ []) : ∃ text, Lexeme t source text := by
  obtain ⟨c, rest, rfl⟩ := List.exists_cons_of_ne_nil h
  refine FirstOf.exists_of_right (FirstOf.exists_of_right (FirstOf.exists_of_right
    (FirstOf.exists_of_right ?_)))
  exact ⟨[c], c, rest, rfl, rfl⟩

/-! ### Positions the enumeration comes by -/

theorem Passes.split {source rest : List Char} (h : Passes t source rest) :
    ∃ before, source = before ++ rest := by
  induction h with
  | here s => exact ⟨[], rfl⟩
  | next split _ _ ih =>
      obtain ⟨before, rfl⟩ := ih
      exact ⟨_, by rw [split, ← List.append_assoc]⟩

/-- Every position is come by or is inside a lexeme that was. -/
theorem passes_or_inside (before rest : List Char) :
    Passes t (before ++ rest) rest ∨ Inside t (before ++ rest) before := by
  by_cases start : before = []
  · rw [start]
    exact .inl (.here rest)
  obtain ⟨text, lexeme⟩ : ∃ text, Lexeme t (before ++ rest) text :=
    exists_lexeme (by simp [start])
  obtain ⟨some, s, split⟩ := lexeme.split
  have some := List.length_pos_iff.mpr some
  have total := congrArg List.length split
  rw [List.length_append, List.length_append] at total
  by_cases fits : text.length ≤ before.length
  · obtain ⟨before', rfl⟩ : ∃ before', before = text ++ before' :=
      List.prefix_of_prefix_length_le ⟨s, split.symm⟩ (List.prefix_append before rest) fits
        |>.imp fun _ h => h.symm
    rw [List.append_assoc] at split
    obtain rfl := List.append_cancel_left split
    have shorter : before'.length < (text ++ before').length := by
      rw [List.length_append]
      omega
    rcases passes_or_inside before' rest with passes | ⟨first, w, r, split', passes, lexeme', lo, hi⟩
    · exact .inl (.next (List.append_assoc ..) lexeme passes)
    · refine .inr ⟨text ++ first, w, r, ?_, .next (List.append_assoc ..) lexeme passes, lexeme', ?_, ?_⟩
      · rw [List.append_assoc, split', List.append_assoc]
      · rw [List.length_append, List.length_append]
        omega
      · rw [List.length_append, List.length_append]
        omega
  · refine .inr ⟨[], text, s, split, ?_, ?_, ?_, ?_⟩
    · rw [split]
      exact .here _
    · rw [← split]
      exact lexeme
    · exact List.length_pos_iff.mpr start
    · simpa using fits
termination_by before.length

/-! ### The loop -/

/-- What the loop does, lexeme by lexeme, from a byte offset on. -/
inductive Scan (t : Tables) : Nat → List Char → List TagMatch → Prop
  | done (pos : Nat) : Scan t pos [] []
  | skip {pos : Nat} {source text rest : List Char} {matches' : List TagMatch}
      (split : source = text ++ rest) (lexeme : Lexeme t source text)
      (no_tag : ¬ ∃ spelling value, TagAt t source spelling value)
      (tail : Scan t (pos + byteLength text) rest matches') : Scan t pos source matches'
  | tag {pos : Nat} {source spelling value rest : List Char} {matches' : List TagMatch}
      (split : source = '#' :: spelling ++ rest) (tag : TagAt t source spelling value)
      (tail : Scan t (pos + byteLength ('#' :: spelling)) rest matches') :
      Scan t pos source (⟨pos, pos + byteLength ('#' :: spelling), value⟩ :: matches')

theorem no_tag_of_ne {c : Char} {rest : List Char} (hc : c ≠ '#') :
    ¬ ∃ spelling value, TagAt t (c :: rest) spelling value := by
  rintro ⟨spelling, value, h⟩
  obtain ⟨rest', split, -⟩ := h.introduced
  exact hc (List.cons.inj split).1

theorem byteLength_introducer (spelling : List Char) :
    byteLength ('#' :: spelling) = byteLength spelling + 1 := by
  rw [byteLength_cons, show '#'.utf8Size = 1 from rfl, Nat.add_comm]

/-- The loop passes over one code point that starts nothing longer. -/
theorem Scan.single {pos : Nat} {c : Char} {rest : List Char} {matches' : List TagMatch}
    (no_emoji : ¬ ∃ emoji, FullyQualifiedEmoji t (c :: rest) emoji)
    (no_reference : ¬ ∃ reference, ReferenceAt t (c :: rest) reference)
    (no_escape : ¬ ∃ escape, EscapeAt t (c :: rest) escape)
    (no_tag : ¬ ∃ spelling value, TagAt t (c :: rest) spelling value)
    (tail : Scan t (pos + c.utf8Size) rest matches') : Scan t pos (c :: rest) matches' := by
  have lexeme : Lexeme t (c :: rest) [c] := by
    refine .inr ⟨no_emoji, .inr ⟨no_reference, .inr ⟨no_escape, .inr ⟨?_, c, rest, rfl, rfl⟩⟩⟩⟩
    rintro ⟨_, spelling, value, h, -⟩
    exact no_tag ⟨spelling, value, h⟩
  exact .skip rfl lexeme no_tag (by simpa using tail)

theorem escape_iff {c : Char} {rest : List Char} :
    (c = '\\' && rest.head?.any t.isPunct) = true ↔ ∃ escape, EscapeAt t (c :: rest) escape := by
  rw [Bool.and_eq_true, decide_eq_true_eq, Option.any_eq_true]
  constructor
  · rintro ⟨rfl, d, head, punct⟩
    obtain ⟨rest', rfl⟩ := List.head?_eq_some_iff.mp head
    exact ⟨_, d, rest', rfl, punct, rfl⟩
  · rintro ⟨_, d, rest', split, punct, -⟩
    obtain ⟨rfl, rfl⟩ := List.cons.inj split
    exact ⟨rfl, d, rfl, punct⟩

theorem scan_findTagMatchesFrom (source : List Char) (pos : Nat) :
    Scan t pos source (findTagMatchesFrom t source pos) := by
  induction source, pos using findTagMatchesFrom.induct t with
  | case1 pos =>
      rw [findTagMatchesFrom]
      exact .done pos
  | case2 pos c s found _ ih =>
      obtain ⟨emoji, longest⟩ := matchFullyQualifiedEmoji_pos.mp found
      obtain ⟨r, split⟩ := longest.1
      rw [findTagMatchesFrom, dif_pos found]
      dsimp only
      rw [matchFullyQualifiedEmoji_eq longest, ← split, dropBytes_byteLength] at ih ⊢
      refine .skip rfl (.inl (split ▸ longest)) ?_ ih
      rintro ⟨spelling, value, h⟩
      exact h.no_emoji ⟨emoji, split ▸ longest⟩
  | case3 pos c s no_emoji found _ ih =>
      obtain ⟨reference, at_start⟩ := characterReferenceLength_pos.mp found
      obtain ⟨r, split⟩ := at_start.1
      have no_tag : ¬ ∃ spelling value, TagAt t (c :: s) spelling value :=
        no_tag_of_ne (by rw [at_start.head]; decide)
      rw [findTagMatchesFrom, dif_neg no_emoji, dif_pos found]
      rw [matchFullyQualifiedEmoji_pos] at no_emoji
      have lexeme : Lexeme t (c :: s) reference := .inr ⟨no_emoji, .inl at_start⟩
      dsimp only
      rw [characterReferenceLength_eq at_start, ← split, dropBytes_byteLength] at ih ⊢
      exact .skip rfl (split ▸ lexeme) (split ▸ no_tag) ih
  | case4 pos c s no_emoji no_reference found ih =>
      rw [findTagMatchesFrom, dif_neg no_emoji, dif_neg no_reference, if_pos found]
      rw [matchFullyQualifiedEmoji_pos] at no_emoji
      rw [characterReferenceLength_pos] at no_reference
      obtain ⟨escape, at_start⟩ := escape_iff.mp found
      have lexeme : Lexeme t (c :: s) escape := .inr ⟨no_emoji, .inr ⟨no_reference, .inl at_start⟩⟩
      obtain ⟨d, rest, split, punct, rfl⟩ := at_start
      obtain ⟨rfl, rfl⟩ := List.cons.inj split
      refine .skip rfl lexeme (no_tag_of_ne (by decide)) ?_
      rw [byteLength_cons, byteLength_cons, byteLength_nil, t.punct_ascii d punct]
      exact ih
  | case5 pos c s no_emoji no_reference no_escape other ih =>
      rw [findTagMatchesFrom, dif_neg no_emoji, dif_neg no_reference, if_neg no_escape, if_pos other]
      rw [matchFullyQualifiedEmoji_pos] at no_emoji
      rw [characterReferenceLength_pos] at no_reference
      rw [escape_iff] at no_escape
      exact .single no_emoji no_reference no_escape (no_tag_of_ne (by simpa using other)) ih
  | case6 pos c s no_emoji no_reference no_escape introducer none ih =>
      rw [findTagMatchesFrom, dif_neg no_emoji, dif_neg no_reference, if_neg no_escape, if_neg introducer]
      simp only [none]
      rw [matchFullyQualifiedEmoji_pos] at no_emoji
      rw [characterReferenceLength_pos] at no_reference
      rw [escape_iff] at no_escape
      obtain rfl : c = '#' := by simpa using introducer
      refine .single no_emoji no_reference no_escape ?_ ih
      rintro ⟨spelling, value, h⟩
      obtain ⟨rest, split, longest⟩ := h.introduced
      obtain rfl := (List.cons.inj split).2
      obtain ⟨r, -, derived⟩ := longest.derived
      rcases scanTagIdentifier_spec (t := t) s with ⟨w, v, -, found⟩ | ⟨underivable, -⟩
      · rw [none] at found
        exact nomatch found
      · exact underivable ⟨r, value, derived⟩
  | case7 pos c s no_emoji no_reference no_escape introducer consumed value found _ ih =>
      rw [findTagMatchesFrom, dif_neg no_emoji, dif_neg no_reference, if_neg no_escape, if_neg introducer]
      simp only [found]
      rw [matchFullyQualifiedEmoji_pos] at no_emoji
      obtain rfl : c = '#' := by simpa using introducer
      rcases scanTagIdentifier_spec (t := t) s with ⟨spelling, v, longest, result⟩ | ⟨-, missing⟩
      · rw [found, Option.some.injEq, Prod.mk.injEq] at result
        obtain ⟨rfl, rfl⟩ := result
        have tag : TagAt t ('#' :: s) spelling value := ⟨no_emoji, s, rfl, longest⟩
        obtain ⟨rest, split⟩ := tag.split
        rw [(List.cons.inj split).2] at ih tag ⊢
        rw [dropBytes_byteLength, Nat.add_assoc, ← byteLength_introducer] at ih ⊢
        exact .tag rfl tag ih
      · rw [missing] at found
        exact nomatch found

/-! ### What the loop returns -/

def IsTagMatchFrom (t : Tables) (pos : Nat) (source : List Char) (m : TagMatch) : Prop :=
  ∃ before rest spelling, source = before ++ rest ∧ Passes t source rest ∧
    TagAt t rest spelling m.value ∧ m.start = pos + byteLength before ∧
    m.stop = pos + byteLength before + byteLength ('#' :: spelling)

/-- A tag is the first lexeme, or it is a tag of what is left behind it. -/
theorem isTagMatchFrom_lexeme {pos : Nat} {source text rest : List Char} {m : TagMatch}
    (split : source = text ++ rest) (lexeme : Lexeme t source text) :
    IsTagMatchFrom t pos source m ↔
      (∃ spelling, TagAt t source spelling m.value ∧ m.start = pos ∧
        m.stop = pos + byteLength ('#' :: spelling)) ∨
      IsTagMatchFrom t (pos + byteLength text) rest m := by
  constructor
  · rintro ⟨before, rest', spelling, whole, passes, tag, start, stop⟩
    cases passes with
    | here =>
        obtain rfl : before = [] := by simpa using whole
        exact .inl ⟨spelling, tag, by simpa using start, by simpa using stop⟩
    | next split' lexeme' tail =>
        obtain rfl := lexeme.unique lexeme'
        obtain rfl := List.append_cancel_left (split.symm.trans split')
        obtain ⟨before', rfl⟩ := tail.split
        rw [split, ← List.append_assoc] at whole
        obtain rfl := List.append_cancel_right whole
        refine .inr ⟨before', rest', spelling, rfl, tail, tag, ?_, ?_⟩
        · rw [start, byteLength_append, Nat.add_assoc]
        · rw [stop, byteLength_append, ← Nat.add_assoc pos]
  · rintro (⟨spelling, tag, start, stop⟩ | ⟨before, rest', spelling, rfl, passes, tag, start, stop⟩)
    · exact ⟨[], source, spelling, rfl, .here _, tag, by simpa using start, by simpa using stop⟩
    · refine ⟨text ++ before, rest', spelling, by rw [split, List.append_assoc],
        .next split lexeme passes, tag, ?_, ?_⟩
      · rw [start, byteLength_append, Nat.add_assoc]
      · rw [stop, byteLength_append, ← Nat.add_assoc pos]

theorem Scan.mem_iff {pos : Nat} {source : List Char} {matches' : List TagMatch}
    (h : Scan t pos source matches') (m : TagMatch) :
    m ∈ matches' ↔ IsTagMatchFrom t pos source m := by
  induction h with
  | done pos =>
      simp only [List.not_mem_nil, false_iff]
      rintro ⟨before, rest, spelling, split, -, tag, -⟩
      obtain ⟨-, rfl⟩ := List.append_eq_nil_iff.mp split.symm
      obtain ⟨_, split, -⟩ := tag.introduced
      exact nomatch split
  | skip split lexeme no_tag _ ih =>
      rw [ih, isTagMatchFrom_lexeme split lexeme]
      constructor
      · exact .inr
      · rintro (⟨spelling, tag, -⟩ | later)
        · exact absurd ⟨spelling, _, tag⟩ no_tag
        · exact later
  | tag split tag _ ih =>
      rw [List.mem_cons, ih, isTagMatchFrom_lexeme split tag.lexeme]
      refine or_congr_left ?_
      constructor
      · rintro rfl
        exact ⟨_, tag, rfl, rfl⟩
      · rintro ⟨spelling, tag', start, stop⟩
        obtain ⟨rfl, value⟩ := tag.unique tag'
        cases m
        simp_all

theorem Scan.bounds {pos : Nat} {source : List Char} {matches' : List TagMatch}
    (h : Scan t pos source matches') :
    ∀ m ∈ matches', pos ≤ m.start ∧ m.start < m.stop ∧ m.stop ≤ pos + byteLength source := by
  induction h with
  | done pos => simp
  | skip split _ _ _ ih =>
      intro m hm
      have := ih m hm
      rw [split, byteLength_append]
      omega
  | tag split _ _ ih =>
      intro m hm
      rw [split, byteLength_append]
      rcases List.mem_cons.mp hm with rfl | hm
      · refine ⟨Nat.le_refl _, Nat.lt_add_of_pos_right (byteLength_pos (List.cons_ne_nil _ _)), ?_⟩
        dsimp only
        omega
      · have := ih m hm
        omega

theorem Scan.ordered {pos : Nat} {source : List Char} {matches' : List TagMatch}
    (h : Scan t pos source matches') :
    matches'.Pairwise fun m next => m.stop ≤ next.start := by
  induction h with
  | done pos => exact .nil
  | skip _ _ _ _ ih => exact ih
  | tag _ _ tail ih => exact .cons (fun m hm => (tail.bounds m hm).1) ih

/-- **The scanner enumerates the tags of the grammar.**

On every run and for all tables, `findTagMatches` returns the tags of the run and
nothing else, each with the longest spelling and the value the grammar gives to it.
They are in bounds, in order and apart.  Where the grammar derives anything behind an
introducer, a tag is returned that starts there, unless the introducer is inside
something that was read as one before: a tag, an emoji, a reference or an escape. -/
theorem findTagMatches_correct (t : Tables) (source : List Char) :
    (∀ m, m ∈ findTagMatches t source ↔ IsTagMatch t source m) ∧
    (∀ m ∈ findTagMatches t source, m.start < m.stop ∧ m.stop ≤ byteLength source) ∧
    ((findTagMatches t source).Pairwise fun m next => m.stop ≤ next.start) ∧
    ∀ before after rest value, source = before ++ '#' :: after →
      (¬ ∃ emoji, FullyQualifiedEmoji t ('#' :: after) emoji) →
      TagSourceSpelling t after rest value →
      (∃ m ∈ findTagMatches t source, m.start = byteLength before) ∨ Inside t source before := by
  have scan : Scan t 0 source (findTagMatches t source) := scan_findTagMatchesFrom source 0
  have mem_iff : ∀ m, m ∈ findTagMatches t source ↔ IsTagMatch t source m := by
    intro m
    rw [scan.mem_iff]
    simp only [IsTagMatchFrom, Nat.zero_add, IsTagMatch]
  refine ⟨mem_iff, ?_, scan.ordered, ?_⟩
  · intro m hm
    have := scan.bounds m hm
    omega
  · rintro before after rest value rfl no_emoji derived
    rcases passes_or_inside (t := t) before ('#' :: after) with passes | inside
    · left
      rcases scanTagIdentifier_spec (t := t) after with ⟨spelling, v, longest, -⟩ | ⟨underivable, -⟩
      · refine ⟨⟨byteLength before, byteLength before + byteLength ('#' :: spelling), v⟩, ?_, rfl⟩
        rw [mem_iff]
        exact ⟨before, _, spelling, rfl, passes, ⟨no_emoji, after, rfl, longest⟩, rfl, rfl⟩
      · exact absurd ⟨rest, value, derived⟩ underivable
    · exact .inr inside

def keycap : List Char := ['#', '\uFE0F', '\u20E3']

/-- Some rows of each table. -/
def sampleTables : Tables where
  unicode17XIDContinue :=
    ⟨#[⟨0x30, 0x39⟩, ⟨0x41, 0x5A⟩, ⟨0x5F, 0x5F⟩, ⟨0x61, 0x7A⟩, ⟨0x300, 0x36F⟩, ⟨0xFE00, 0xFE0F⟩],
      by decide, by decide⟩
  unicode17DefaultIgnorable := ⟨#[⟨0x200B, 0x200F⟩, ⟨0xFE00, 0xFE0F⟩], by decide, by decide⟩
  unicode17CombiningMarks := ⟨#[⟨0x300, 0x36F⟩, ⟨0xFE00, 0xFE0F⟩], by decide, by decide⟩
  emoji17FullyQualified emoji := emoji = keycap
  isAlphaNumeric c := ('0' ≤ c && c ≤ '9') || ('A' ≤ c && c ≤ 'Z') || ('a' ≤ c && c ≤ 'z')
  isPunct c := c = '#' || c = '+' || c = '\\'
  lookUpHTML5EntityByName name := name = ['a', 'm', 'p']
  emoji_size := by
    intro emoji h
    obtain rfl : emoji = keycap := by simpa using h
    decide
  syntax_code_point := by
    rintro c (rfl | rfl)
    · exact ⟨by decide, by decide, by simp [keycap]⟩
    · exact ⟨by decide, by decide, by simp [keycap]⟩
  ampersand_not_xid := by decide
  alphaNumeric_ascii := by
    intro c h
    simp only [Bool.or_eq_true, Bool.and_eq_true, decide_eq_true_eq] at h
    rcases h with (digit | upper) | lower
    · exact utf8Size_of_le (UInt32.le_trans digit.2 (by decide))
    · exact utf8Size_of_le (UInt32.le_trans upper.2 (by decide))
    · exact utf8Size_of_le lower.2
  alphaNumeric_delimiter := by decide
  punct_ascii := by
    intro c h
    simp only [Bool.or_eq_true, decide_eq_true_eq] at h
    rcases h with (rfl | rfl) | rfl
    · rfl
    · rfl
    · rfl
  entity_name := by
    intro name h
    obtain rfl : name = ['a', 'm', 'p'] := by simpa using h
    simp

/-- An escaped number sign, a tag that ends before a reference, and a keycap in a tag. -/
def sampleText : List Char :=
  "\\#a #R&D's&amp;#b/".toList ++ keycap

theorem findTagMatches_correct_sampleText :
    findTagMatches sampleTables sampleText =
      [⟨4, 10, "R&D's".toList⟩, ⟨15, 25, "b/".toList ++ keycap⟩] ∧
    IsTagMatch sampleTables sampleText ⟨4, 10, "R&D's".toList⟩ :=
  ⟨by decide +kernel, ((findTagMatches_correct sampleTables sampleText).1 _).mp (by decide +kernel)⟩

end Memos.Markdown

/-
A tag value is a tag of its own.

Behind an introducer the value of any tag is read as that tag again.  The value is what
its tokens emit, without what is ignored between them, and no two of them run together
when that is gone: an emoji is made longer only by code points that are ignored or that
no token starts with, and a letter, a digit or a sign is the start of an emoji only with
an ignored code point behind it.  These are properties of the generated tables.
-/
import Memos.Proofs.Markdown.Tag

namespace Memos.Markdown

open Utf8 Munch

/-! ### The tables -/

/-- What a token of a value may start with. -/
def StartsToken (t : Tables) (c : Char) : Prop :=
  XIDContinue t c ∨ Extension c ∨ Apostrophe c ∨ c = '/' ∨
    ∃ rest, t.emoji17FullyQualified (c :: rest) = true

/-- What holds of the generated tables, beside what the scanner relies on. -/
structure Tables.Generated (t : Tables) : Prop where
  emoji_visible : ∀ c rest, t.emoji17FullyQualified (c :: rest) = true → ¬DefaultIgnorable t c
  /-- An emoji that starts like text is shown as one by the selector behind its start. -/
  emoji_selected : ∀ c rest, t.emoji17FullyQualified (c :: rest) = true →
    XIDContinue t c ∨ Extension c ∨ Apostrophe c ∨ c = '#' →
    ∃ d rest', rest = d :: rest' ∧ DefaultIgnorable t d
  /-- An emoji is made longer by joiners, selectors and modifiers only. -/
  emoji_extended : ∀ emoji d rest, t.emoji17FullyQualified emoji = true →
    t.emoji17FullyQualified (emoji ++ d :: rest) = true → DefaultIgnorable t d ∨ ¬StartsToken t d
  emoji_plain : ∀ emoji, t.emoji17FullyQualified emoji = true →
    '&' ∉ emoji ∧ ';' ∉ emoji ∧ '\\' ∉ emoji ∧ '#' ∉ emoji.tail
  delimiter_not_xid : ∀ c, c = '#' ∨ c = ';' ∨ Apostrophe c → ¬XIDContinue t c
  introducer_visible : ¬DefaultIgnorable t '#'
  escape_not_alphaNumeric : t.isAlphaNumeric '\\' = false

variable {t : Tables}

theorem FullyQualifiedEmoji.cons {c : Char} {s emoji : List Char}
    (h : FullyQualifiedEmoji t (c :: s) emoji) :
    ∃ rest, emoji = c :: rest ∧ rest <+: s ∧ t.emoji17FullyQualified (c :: rest) = true := by
  obtain ⟨a, rest, rfl⟩ := List.exists_cons_of_ne_nil h.ne_nil
  obtain ⟨rfl, start⟩ := List.cons_prefix_cons.mp h.1
  exact ⟨rest, rfl, start, h.2.1⟩

/-- A text that may stand behind a token: it is empty or starts with a token. -/
structure Clean (t : Tables) (text : List Char) : Prop where
  starts : ∀ d ∈ text.head?, StartsToken t d ∧ ¬DefaultIgnorable t d
  no_semicolon : ';' ∉ text

theorem Clean.nil : Clean t [] :=
  ⟨fun _ none => (nomatch none), List.not_mem_nil⟩

theorem Clean.cons {c : Char} {text : List Char} (starts : StartsToken t c)
    (visible : ¬DefaultIgnorable t c) (not_semicolon : c ≠ ';') (h : ';' ∉ text) :
    Clean t (c :: text) := by
  refine ⟨fun d hd => ?_, ?_⟩
  · rw [List.head?_cons, Option.mem_some_iff] at hd
    exact hd ▸ ⟨starts, visible⟩
  · intro mem
    rcases List.mem_cons.mp mem with same | mem
    · exact not_semicolon same.symm
    · exact h mem

section

variable (generated : t.Generated)

include generated

/-- Text is no emoji when what follows it is visible. -/
theorem no_emoji_of_clean {c : Char} {rest : List Char}
    (text : XIDContinue t c ∨ Extension c ∨ Apostrophe c ∨ c = '#')
    (visible : ∀ d ∈ rest.head?, ¬DefaultIgnorable t d) :
    ¬∃ emoji, FullyQualifiedEmoji t (c :: rest) emoji := by
  rintro ⟨emoji, h⟩
  obtain ⟨more, rfl, start, known⟩ := h.cons
  obtain ⟨d, more', rfl, ignorable⟩ := generated.emoji_selected c more known text
  obtain ⟨end_, rfl⟩ := start
  exact visible d rfl ignorable

omit generated in
/-- A reference has a semicolon at its end. -/
theorem no_reference_of_clean {source : List Char} (h : ';' ∉ source) :
    ¬∃ reference, ReferenceAt t source reference := by
  rintro ⟨reference, start, form⟩
  refine h (start.mem ?_)
  cases form with
  | decimal digits => simp
  | hexadecimal x hx digits => simp
  | named name => simp

omit generated in
theorem no_boundary_of_clean {c : Char} {rest : List Char} (escape : c ≠ '\\')
    (h : ';' ∉ c :: rest) : ¬Boundary t (c :: rest) :=
  fun boundary => no_reference_of_clean h ((boundary_iff escape).mp boundary)

/-- The longest emoji at the start of a text stays the longest when what follows it starts a
token. -/
theorem FullyQualifiedEmoji.keeps {emoji rest rest' : List Char}
    (h : FullyQualifiedEmoji t (emoji ++ rest) emoji) (clean : Clean t rest') :
    FullyQualifiedEmoji t (emoji ++ rest') emoji := by
  refine ⟨List.prefix_append emoji rest', h.2.1, fun other start known => ?_⟩
  by_contra longer
  obtain ⟨more, rfl⟩ := List.prefix_of_prefix_length_le (List.prefix_append emoji rest') start
    (by omega)
  obtain ⟨d, more', rfl⟩ := List.exists_cons_of_ne_nil
    (fun none : more = [] => longer (by rw [none, List.append_nil]))
  obtain ⟨behind, split⟩ := start
  rw [List.append_assoc, List.append_cancel_left_eq] at split
  obtain ⟨starts, visible⟩ := clean.starts d (by rw [← split]; rfl)
  exact (generated.emoji_extended emoji d more' h.2.1 known).elim visible fun no => no starts

theorem ne_semicolon_of_starts {c : Char} (h : StartsToken t c) : c ≠ ';' := by
  rintro rfl
  rcases h with xid | extension | apostrophe | slash | ⟨rest, known⟩
  · exact generated.delimiter_not_xid ';' (.inr (.inl rfl)) xid
  · simp [Extension] at extension
  · simp [Apostrophe] at apostrophe
  · cases slash
  · exact (generated.emoji_plain _ known).2.1 List.mem_cons_self

theorem not_apostrophe_of_unit {c : Char} (h : EmittedXIDContinue t c ∨ Extension c) :
    ¬Apostrophe c := by
  intro apostrophe
  rcases h with xid | extension
  · exact generated.delimiter_not_xid c (.inr (.inr apostrophe)) xid.1
  · rcases apostrophe with rfl | rfl
    · simp [Extension] at extension
    · simp [Extension] at extension

/-! ### Values -/

theorem clean_of_emoji {source emoji rest : List Char} (h : FullyQualifiedEmoji t source emoji)
    (clean : Clean t rest) : Clean t (emoji ++ rest) := by
  obtain ⟨c, more, rfl⟩ := List.exists_cons_of_ne_nil h.ne_nil
  have plain := (generated.emoji_plain _ h.2.1).2.1
  refine .cons (.inr (.inr (.inr (.inr ⟨more, h.2.1⟩)))) (generated.emoji_visible c more h.2.1)
    (fun same => plain (same ▸ List.mem_cons_self)) fun mem => ?_
  rcases List.mem_append.mp mem with mem | mem
  · exact plain (List.mem_cons_of_mem c mem)
  · exact clean.no_semicolon mem

theorem no_boundary_of_emoji {source emoji rest : List Char}
    (h : FullyQualifiedEmoji t source emoji) (clean : Clean t rest) : ¬Boundary t (emoji ++ rest) := by
  have plain := generated.emoji_plain _ h.2.1
  have whole := (clean_of_emoji generated h clean).no_semicolon
  obtain ⟨c, more, rfl⟩ := List.exists_cons_of_ne_nil h.ne_nil
  exact no_boundary_of_clean (fun same => plain.2.2.1 (same ▸ List.mem_cons_self)) whole

theorem clean_of_starts {c : Char} {rest : List Char} (starts : StartsToken t c)
    (visible : ¬DefaultIgnorable t c) (clean : Clean t rest) : Clean t (c :: rest) :=
  .cons starts visible (ne_semicolon_of_starts generated starts) clean.no_semicolon

omit generated in
theorem starts_of_unit {c : Char} (h : EmittedXIDContinue t c ∨ Extension c) : StartsToken t c :=
  h.imp And.left .inl

/-- What is emitted is empty or starts with a token. -/
theorem clean_of_path {c c' : Config} {out : List Char} (h : Path (Step t) c c' out) : Clean t out := by
  induction h with
  | refl c => exact .nil
  | head first _ ih =>
      cases first with
      | ignored => exact ih
      | starter starter =>
          cases starter with
          | emoji emoji rest split longest => exact clean_of_emoji generated longest ih
          | unit c rest joinable literal visible spacing starts =>
              exact clean_of_starts generated (starts_of_unit (starts.imp_left And.left)) visible ih
      | continuation continuation =>
          cases continuation with
          | emoji joinable emoji rest split longest => exact clean_of_emoji generated longest ih
          | ignorable => exact ih
          | joiner c rest literal visible apostrophe =>
              exact clean_of_starts generated (.inr (.inr (.inl apostrophe))) visible ih
          | unit joinable c rest joinable' literal visible no_joiner continues =>
              exact clean_of_starts generated (starts_of_unit continues) visible ih
      | slash j s =>
          exact clean_of_starts generated (.inr (.inr (.inr (.inl rfl))))
            (t.syntax_code_point '/' (.inl rfl)).2.1 ih

/-- A code point of a value stands for itself. -/
theorem literal_of_clean {c : Char} {rest : List Char} (text : XIDContinue t c ∨ Extension c ∨ Apostrophe c)
    (visible : ¬DefaultIgnorable t c) (clean : Clean t rest) : Literal t (c :: rest) := by
  have starts : StartsToken t c := text.imp_right (.imp_right .inl)
  have escape : c ≠ '\\' := by
    rintro rfl
    rcases text with xid | extension | apostrophe
    · exact (t.syntax_code_point _ (.inr rfl)).1 xid
    · simp [Extension] at extension
    · simp [Apostrophe] at apostrophe
  refine ⟨no_emoji_of_clean generated ?_ fun d hd => (clean.starts d hd).2, ?_⟩
  · exact text.imp_right (.imp_right .inl)
  · exact no_boundary_of_clean escape (clean_of_starts generated starts visible clean).no_semicolon

/-- What a joining apostrophe stands before is the next token. -/
theorem Joins.next {source r out : List Char} {j : Bool} (h : Joins t source)
    (path : Path (Step t) (.body false source) (.body j r) out) (ends : ¬Joins t r) :
    ∃ c rest, out = c :: rest ∧ EmittedXIDContinueExceptCombiningMark t c ∧ Clean t rest := by
  cases path with
  | refl => exact absurd h ends
  | head first tail =>
      have clean := clean_of_path generated tail
      obtain ⟨c, s, rfl, literal, xid⟩ := h
      cases first with
      | continuation continuation =>
          cases continuation with
          | emoji _ emoji rest split longest => exact absurd ⟨_, longest⟩ literal.no_emoji
          | ignorable _ _ _ _ ignorable => exact absurd ignorable xid.1.2
          | unit => exact ⟨c, _, rfl, xid, clean⟩
      | slash => exact absurd xid.1.1 (t.syntax_code_point '/' (.inl rfl)).1

/-- The tokens of a spelling are the tokens of its value, without the ignored ones. -/
theorem path_of_value {c c' : Config} {out : List Char} (h : Path (Step t) c c' out) :
    ∀ j r, c' = .body j r → ¬Joins t r →
      match c with
      | .lead _ => ∃ j', Path (Step t) (.lead out) (.body j' []) out
      | .body j₀ _ => ∀ j₁, (j₀ = true → j₁ = true) →
          ∃ j', Path (Step t) (.body j₁ out) (.body j' []) out := by
  induction h with
  | refl c =>
      rintro j r rfl ends j₁ -
      exact ⟨j₁, .refl _⟩
  | @head c c' c'' first rest step tail ih =>
      intro j r hc ends
      have clean := clean_of_path generated tail
      have again := ih j r hc ends
      subst hc
      cases step with
      | ignored => exact again
      | slash j₀ s =>
          intro j₁ _
          obtain ⟨j', path⟩ := again
          exact ⟨j', .head (.slash j₁ rest) path⟩
      | starter starter =>
          cases starter with
          | emoji emoji s split longest no_boundary =>
              obtain ⟨j', path⟩ := again false id
              subst split
              refine ⟨j', .head (.starter (.emoji first rest rfl (longest.keeps generated clean)
                (no_boundary_of_emoji generated longest clean))) path⟩
          | unit c s joinable literal visible spacing starts flag =>
              obtain ⟨j', path⟩ := again _ id
              refine ⟨j', .head (.starter (.unit c rest _ ?_ visible spacing starts flag)) path⟩
              exact literal_of_clean generated (starts.imp (fun xid => xid.1.1) .inl) visible clean
      | continuation continuation =>
          intro j₁ joins
          cases continuation with
          | emoji joinable emoji s split longest no_boundary =>
              obtain ⟨j', path⟩ := again false id
              subst split
              refine ⟨j', .head (.continuation (.emoji j₁ first rest rfl
                (longest.keeps generated clean) (no_boundary_of_emoji generated longest clean))) path⟩
          | ignorable joinable c s literal ignorable => exact again j₁ fun no => nomatch no
          | joiner c s literal visible apostrophe next =>
              obtain rfl := joins rfl
              obtain ⟨j', path⟩ := again false id
              refine ⟨j', .head (.continuation (.joiner c rest ?_ visible apostrophe ?_)) path⟩
              · exact literal_of_clean generated (.inr (.inr apostrophe)) visible clean
              · obtain ⟨d, more, rfl, xid, behind⟩ := next.next generated tail ends
                exact ⟨d, more, rfl, literal_of_clean generated (.inl xid.1.1) xid.1.2 behind, xid⟩
          | unit joinable c s joinable' literal visible no_joiner continues flag =>
              obtain ⟨j', path⟩ := again _ id
              refine ⟨j', .head (.continuation (.unit j₁ c rest _ ?_ visible ?_ continues flag)) path⟩
              · exact literal_of_clean generated (continues.imp And.left .inl) visible clean
              · exact fun joiner => not_apostrophe_of_unit generated continues joiner.2.1

/-! ### Reading a value -/

/-- A longest spelling ends where no text goes on. -/
theorem LongestSpelling.ends {source spelling value : List Char}
    (h : LongestSpelling t source spelling value) :
    ∃ j r, source = spelling ++ r ∧ Path (Step t) (.lead source) (.body j r) value ∧ ¬Joins t r := by
  obtain ⟨r, split, derived⟩ := h.derived
  obtain ⟨j, path⟩ := derived.path
  refine ⟨j, r, split, path, ?_⟩
  rintro ⟨c, s, rfl, literal, xid⟩
  -- Otherwise the spelling with that code point is longer.
  have more : Step t (.body j (c :: s)) (.body true s) [c] :=
    .continuation (.unit j c s true literal xid.1.2
      (fun joiner => not_apostrophe_of_unit generated (.inl xid.1) joiner.2.1) (.inl xid.1)
      (iff_of_true rfl xid.1))
  have longer : TagSourceSpelling t source s (value ++ [c]) :=
    derivation_of_path (path.trans (.head more (.refl _))) true s rfl
  have le := h.longest s _ longer
  have size := congrArg List.length split
  rw [List.length_append, List.length_cons] at size
  omega

/-- The value of a spelling is a spelling of itself. -/
theorem LongestSpelling.of_value {source spelling value : List Char}
    (h : LongestSpelling t source spelling value) : LongestSpelling t value value value := by
  obtain ⟨j, r, -, path, ends⟩ := h.ends generated
  obtain ⟨j', again⟩ := path_of_value generated path j r rfl ends
  have derived : TagSourceSpelling t value [] value := derivation_of_path again j' [] rfl
  exact ⟨⟨[], (List.append_nil value).symm, derived⟩, fun rest _ _ => Nat.le_add_right _ _⟩

theorem TagAt.of_value {source spelling value : List Char} (h : TagAt t source spelling value) :
    TagAt t ('#' :: value) value value := by
  obtain ⟨rest, -, longest⟩ := h.introduced
  obtain ⟨j, r, -, path, -⟩ := longest.ends generated
  have clean := clean_of_path generated path
  refine ⟨?_, value, rfl, longest.of_value generated⟩
  exact no_emoji_of_clean generated (.inr (.inr (.inr rfl))) fun d hd => (clean.starts d hd).2

end

/-- A run that is a single tag. -/
theorem findTagMatches_of_tagAt {value spelling : List Char}
    (h : TagAt t ('#' :: spelling) spelling value) :
    findTagMatches t ('#' :: spelling) = [⟨0, byteLength ('#' :: spelling), value⟩] := by
  have scan : Scan t 0 ('#' :: spelling) (findTagMatches t ('#' :: spelling)) :=
    scan_findTagMatchesFrom _ 0
  generalize findTagMatches t ('#' :: spelling) = found at scan
  cases scan with
  | skip split lexeme no_tag => exact absurd ⟨_, _, h⟩ no_tag
  | @tag _ _ spelling' value' rest matches' split tag tail =>
      obtain ⟨rfl, rfl⟩ := tag.unique h
      have none : rest = [] := by
        rw [List.cons_append, List.cons.injEq] at split
        exact List.self_eq_append_right.mp split.2
      subst none
      rw [Nat.zero_add] at tail ⊢
      cases tail with
      | done => rfl
      | skip split lexeme =>
          exact absurd (List.append_eq_nil_iff.mp split.symm).1 lexeme.split.1
      | tag split => cases split

/-- **The value of a tag, behind an introducer, is one tag with that value.** -/
theorem findTagMatches_value (t : Tables) (generated : t.Generated) (source : List Char) :
    ∀ m ∈ findTagMatches t source, findTagMatches t ('#' :: m.value) =
      [⟨0, byteLength ('#' :: m.value), m.value⟩] := by
  intro m hm
  obtain ⟨before, rest, spelling, -, -, tag, -⟩ := ((findTagMatches_correct t source).1 m).mp hm
  exact findTagMatches_of_tagAt (tag.of_value generated)

theorem sampleTables_generated : sampleTables.Generated := by
  have only : ∀ emoji, sampleTables.emoji17FullyQualified emoji = true → emoji = keycap :=
    fun emoji known => of_decide_eq_true known
  constructor
  · intro c rest known
    obtain ⟨rfl, rfl⟩ := List.cons.inj (only _ known)
    unfold DefaultIgnorable
    decide
  · intro c rest known _
    obtain ⟨rfl, rfl⟩ := List.cons.inj (only _ known)
    refine ⟨_, _, rfl, ?_⟩
    unfold DefaultIgnorable
    decide
  · intro emoji d rest known longer
    have size := congrArg List.length (only _ longer)
    rw [only _ known, List.length_append, List.length_cons] at size
    omega
  · intro emoji known
    rw [only _ known]
    decide
  · unfold XIDContinue
    rintro c (rfl | rfl | rfl | rfl)
    · decide
    · decide
    · decide
    · decide
  · unfold DefaultIgnorable
    decide
  · decide

/-- An ignored code point is in the tag, but not in its value. -/
theorem findTagMatches_value_sampleText :
    findTagMatches sampleTables ('#' :: ("b/".toList ++ keycap)) =
      [⟨0, byteLength ('#' :: ("b/".toList ++ keycap)), "b/".toList ++ keycap⟩] :=
  findTagMatches_value sampleTables sampleTables_generated ("#b/\u200B".toList ++ keycap)
    ⟨0, 13, "b/".toList ++ keycap⟩ (by decide +kernel)

end Memos.Markdown

/-
What stands behind the reach of the scanner.

An introducer and an escape are barriers: no token goes across one.  What the grammar
reads before a barrier is read with any other barrier in its place, except that an
ampersand right before it may begin a reference.
-/

namespace Memos.Markdown

open Utf8 Munch

variable {t : Tables}

/-- No token goes across the start of this text. -/
inductive Barrier (t : Tables) : List Char → Prop
  | nil : Barrier t []
  | introducer {rest : List Char} (no_emoji : ¬∃ emoji, FullyQualifiedEmoji t ('#' :: rest) emoji) :
      Barrier t ('#' :: rest)
  | escape {c : Char} {rest : List Char} (punct : t.isPunct c = true) : Barrier t ('\\' :: c :: rest)

/-- Behind `w`, one text may stand for the other. -/
structure Swap (t : Tables) (w x x' : List Char) : Prop where
  barrier : Barrier t x
  barrier' : Barrier t x'
  no_reference : w.getLast? = some '&' → ¬∃ reference, ReferenceAt t ('&' :: x) reference
  no_reference' : w.getLast? = some '&' → ¬∃ reference, ReferenceAt t ('&' :: x') reference

variable {w x x' : List Char}

theorem Swap.symm (h : Swap t w x x') : Swap t w x' x :=
  ⟨h.barrier', h.barrier, h.no_reference', h.no_reference⟩

/-- What is behind a text is behind the end of it. -/
theorem Swap.of_append (before : List Char) (h : Swap t (before ++ w) x x') : Swap t w x x' := by
  have last : w.getLast? = some '&' → (before ++ w).getLast? = some '&' := by
    intro last
    rw [List.getLast?_append, last]
    rfl
  exact ⟨h.barrier, h.barrier', fun h' => h.no_reference (last h'), fun h' => h.no_reference' (last h')⟩

theorem Swap.tail {c : Char} (h : Swap t (c :: w) x x') : Swap t w x x' :=
  Swap.of_append [c] h

/-- What has neither sign of a barrier behind its start ends before one. -/
theorem Barrier.prefix_left {c : Char} {s : List Char} (barrier : Barrier t x)
    (start : c :: s <+: c :: w ++ x) (plain : '#' ∉ s ∧ '\\' ∉ s) : c :: s <+: c :: w := by
  rw [List.cons_append, List.cons_prefix_cons] at start
  rw [List.cons_prefix_cons]
  refine ⟨rfl, ?_⟩
  rcases List.prefix_or_prefix_of_prefix start.2 (List.prefix_append w x) with inside | ⟨more, rfl⟩
  · exact inside
  · have start := (List.prefix_append_right_inj w).mp start.2
    cases more with
    | nil => exact ⟨[], by rw [List.append_nil, List.append_nil]⟩
    | cons d more =>
        have mem : d ∈ w ++ d :: more := List.mem_append_right w List.mem_cons_self
        cases barrier with
        | nil => exact absurd (List.prefix_nil.mp start) (List.cons_ne_nil d more)
        | introducer =>
            obtain rfl := (List.cons_prefix_cons.mp start).1
            exact absurd mem plain.1
        | escape =>
            obtain rfl := (List.cons_prefix_cons.mp start).1
            exact absurd mem plain.2

/-- The source of a configuration, and a configuration with more source behind it. -/
def Config.source : Config → List Char
  | .lead s => s
  | .body _ s => s

def Config.extend (x : List Char) : Config → Config
  | .lead s => .lead (s ++ x)
  | .body j s => .body j (s ++ x)

section

variable (generated : t.Generated)

include generated

/-! ### Tokens -/

theorem FullyQualifiedEmoji.before {c : Char} {emoji : List Char} (barrier : Barrier t x)
    (h : FullyQualifiedEmoji t (c :: w ++ x) emoji) : emoji <+: c :: w := by
  obtain ⟨rest, rfl, -, known⟩ := h.cons
  have plain := generated.emoji_plain _ known
  exact barrier.prefix_left h.1 ⟨plain.2.2.2, fun mem => plain.2.2.1 (List.mem_cons_of_mem c mem)⟩

theorem FullyQualifiedEmoji.swap {c : Char} {emoji : List Char} (barrier : Barrier t x)
    (barrier' : Barrier t x') (h : FullyQualifiedEmoji t (c :: w ++ x) emoji) :
    FullyQualifiedEmoji t (c :: w ++ x') emoji := by
  refine ⟨(h.before generated barrier).trans (List.prefix_append _ x'), h.2.1, fun other start known => ?_⟩
  have plain := generated.emoji_plain _ known
  obtain ⟨a, rest, rfl⟩ := List.exists_cons_of_ne_nil (t.emoji_size other known).1
  obtain rfl : a = c := (List.cons_prefix_cons.mp start).1
  have before := barrier'.prefix_left start
    ⟨plain.2.2.2, fun mem => plain.2.2.1 (List.mem_cons_of_mem a mem)⟩
  exact h.2.2 _ (before.trans (List.prefix_append _ x)) known

omit generated in
/-- What a predicate does not hold of is not in a text of which it holds, with a semicolon. -/
theorem notMem_of_all {p : Char → Bool} {s : List Char} {c : Char} (all : ∀ d ∈ s, p d = true)
    (h : p c = false) (other : c ≠ ';') : c ∉ s ++ [';'] := by
  intro mem
  rcases List.mem_append.mp mem with mem | mem
  · rw [all c mem] at h
    cases h
  · exact other (List.mem_singleton.mp mem)

/-- Behind its second code point a reference has no sign of a barrier, and a numeric one has
no ampersand. -/
theorem CharacterReference.plain {reference : List Char} (h : CharacterReference t reference) :
    ∃ d rest, reference = '&' :: d :: rest ∧ d ≠ '\\' ∧ '#' ∉ rest ∧ '\\' ∉ rest ∧ rest ≠ [] ∧
      (d = '#' → '&' ∉ rest) := by
  cases h with
  | decimal digits some few all =>
      refine ⟨'#', _, rfl, by decide, notMem_of_all all rfl (by decide),
        notMem_of_all all rfl (by decide), by simp, fun _ => notMem_of_all all rfl (by decide)⟩
  | hexadecimal x hx digits some few all =>
      have other : ∀ c, c ≠ 'x' → c ≠ 'X' → isHexDigit c = false → c ≠ ';' →
          c ∉ x :: (digits ++ [';']) := by
        intro c small capital digit semicolon mem
        rcases List.mem_cons.mp mem with rfl | mem
        · exact hx.elim small capital
        · exact notMem_of_all all digit semicolon mem
      exact ⟨'#', _, rfl, by decide, other _ (by decide) (by decide) rfl (by decide),
        other _ (by decide) (by decide) rfl (by decide), List.cons_ne_nil _ _,
        fun _ => other _ (by decide) (by decide) rfl (by decide)⟩
  | named name known =>
      obtain ⟨some, -, all⟩ := t.entity_name name known
      obtain ⟨d, more, rfl⟩ := List.exists_cons_of_ne_nil some
      have first := all d List.mem_cons_self
      have rest := fun c hc => all c (List.mem_cons_of_mem d hc)
      refine ⟨d, _, rfl, ?_, notMem_of_all rest t.alphaNumeric_delimiter.1 (by decide),
        notMem_of_all rest generated.escape_not_alphaNumeric (by decide), by simp, ?_⟩
      · rintro rfl
        rw [generated.escape_not_alphaNumeric] at first
        cases first
      · rintro rfl
        rw [t.alphaNumeric_delimiter.1] at first
        cases first

/-- A reference is read before any barrier, unless it would start right before one. -/
theorem ReferenceAt.swap_of {c d : Char} {reference : List Char} (barrier : Barrier t x)
    (h : ReferenceAt t (c :: d :: w ++ x) reference) : ReferenceAt t (c :: d :: w ++ x') reference := by
  obtain ⟨e, rest, rfl, -, number, escape, -⟩ := h.2.plain generated
  refine ⟨?_, h.2⟩
  have start := h.1
  rw [List.cons_append, List.cons_prefix_cons] at start
  obtain ⟨rfl, start⟩ := start
  obtain rfl : e = d := (List.cons_prefix_cons.mp start).1
  have before := barrier.prefix_left start ⟨number, escape⟩
  rw [List.cons_append, List.cons_prefix_cons]
  exact ⟨rfl, before.trans (List.prefix_append _ x')⟩

omit generated in
theorem notMem_of_prefix {c : Char} {s r z : List Char} (start : r ++ [';'] <+: s ++ z) (free : c ∉ r ++ [';'])
    (clean : ';' ∉ s) : c ∉ s := by
  intro mem
  rcases List.prefix_or_prefix_of_prefix start (List.prefix_append s z) with inside | inside
  · exact clean (inside.mem (List.mem_append_right r (List.mem_singleton_self ';')))
  · exact free (inside.mem mem)

theorem ReferenceAt.swap {c : Char} {reference : List Char} (swap : Swap t (c :: w) x x')
    (h : ReferenceAt t (c :: w ++ x) reference) : ReferenceAt t (c :: w ++ x') reference := by
  cases w with
  | nil =>
      obtain rfl := h.head
      exact absurd ⟨reference, h⟩ (swap.no_reference rfl)
  | cons d w => exact h.swap_of generated swap.barrier

/-- What stands for itself before a barrier does so before any barrier. -/
theorem Literal.swap {c : Char} (swap : Swap t (c :: w) x x') (escape : c ≠ '\\')
    (h : Literal t (c :: w ++ x)) : Literal t (c :: w ++ x') := by
  refine ⟨?_, ?_⟩
  · rintro ⟨emoji, found⟩
    exact h.no_emoji ⟨emoji, found.swap generated swap.barrier' swap.barrier⟩
  · intro boundary
    obtain ⟨reference, found⟩ := (boundary_iff escape).mp boundary
    exact h.no_boundary (.inl ⟨reference, found.swap generated swap.symm⟩)

/-- Neither a barrier nor an end is text. -/
theorem Barrier.not_joins (barrier : Barrier t x) : ¬Joins t x := by
  rintro ⟨c, rest, rfl, -, xid⟩
  cases barrier with
  | introducer => exact generated.delimiter_not_xid '#' (.inl rfl) xid.1.1
  | escape => exact (t.syntax_code_point '\\' (.inr rfl)).1 xid.1.1

theorem Joins.swap (swap : Swap t w x x') (h : Joins t (w ++ x)) : Joins t (w ++ x') := by
  cases w with
  | nil => exact absurd h (swap.barrier.not_joins generated)
  | cons c w =>
      obtain ⟨d, rest, split, literal, xid⟩ := h
      obtain rfl := (List.cons.inj split).1
      exact ⟨c, w ++ x', rfl, literal.swap generated swap (ne_backslash_of_unit (.inl xid.1)), xid⟩

/-! ### Segments -/

omit generated in
theorem Boundary.head {c : Char} {s : List Char} (h : Boundary t (c :: s)) : c = '&' ∨ c = '\\' := by
  rcases h with ⟨reference, found⟩ | ⟨escape, d, rest, split, -⟩
  · exact .inl found.head
  · exact .inr (List.cons.inj split).1

omit generated in
theorem Barrier.no_emoji (barrier : Barrier t x) : ¬∃ emoji, FullyQualifiedEmoji t x emoji := by
  rintro ⟨emoji, h⟩
  cases barrier with
  | nil => exact h.ne_nil (List.prefix_nil.mp h.1)
  | introducer no_emoji => exact no_emoji ⟨emoji, h⟩
  | escape => exact h.head_ne rfl

theorem Barrier.not_token {c : Char} {s : List Char} (barrier : Barrier t (c :: s)) :
    ¬XIDContinue t c ∧ ¬DefaultIgnorable t c ∧ ¬Extension c ∧ ¬Apostrophe c ∧ c ≠ '/' := by
  cases barrier with
  | introducer =>
      refine ⟨generated.delimiter_not_xid '#' (.inl rfl), generated.introducer_visible, ?_, ?_, by decide⟩
      · simp [Extension]
      · simp [Apostrophe]
  | escape =>
      obtain ⟨not_xid, visible, -⟩ := t.syntax_code_point '\\' (.inr rfl)
      refine ⟨not_xid, visible, ?_, ?_, by decide⟩
      · simp [Extension]
      · simp [Apostrophe]

theorem Barrier.stuck {c c' : Config} {out : List Char} (barrier : Barrier t c.source) :
    ¬Step t c c' out := by
  intro h
  cases h with
  | ignored literal ignored =>
      have no_token := Barrier.not_token generated barrier
      rcases ignored with ignorable | mark
      · exact no_token.2.1 ignorable
      · exact no_token.1 mark.1.1
  | starter starter =>
      cases starter with
      | emoji emoji rest split longest => exact barrier.no_emoji ⟨_, longest⟩
      | unit c rest joinable literal visible spacing starts =>
          have no_token := Barrier.not_token generated barrier
          exact starts.elim (fun xid => no_token.1 xid.1.1) no_token.2.2.1
  | continuation continuation =>
      cases continuation with
      | emoji joinable emoji rest split longest => exact barrier.no_emoji ⟨_, longest⟩
      | ignorable joinable c rest literal ignorable =>
          exact (Barrier.not_token generated barrier).2.1 ignorable
      | joiner c rest literal visible apostrophe =>
          exact (Barrier.not_token generated barrier).2.2.2.1 apostrophe
      | unit joinable c rest joinable' literal visible no_joiner continues =>
          have no_token := Barrier.not_token generated barrier
          exact continues.elim (fun xid => no_token.1 xid.1) no_token.2.2.1
  | slash => exact (Barrier.not_token generated barrier).2.2.2.2 rfl

theorem emoji_swap {c : Char} {emoji rest : List Char} (swap : Swap t (c :: w) x x')
    (split : c :: w ++ x = emoji ++ rest) (longest : FullyQualifiedEmoji t (c :: w ++ x) emoji) :
    ∃ w', rest = w' ++ x ∧ c :: w = emoji ++ w' ∧ FullyQualifiedEmoji t (c :: w ++ x') emoji ∧
      ¬Boundary t (c :: w ++ x') := by
  obtain ⟨w', before⟩ := longest.before generated swap.barrier
  refine ⟨w', ?_, before.symm, longest.swap generated swap.barrier swap.barrier', fun boundary => ?_⟩
  · rw [← before, List.append_assoc, List.append_cancel_left_eq] at split
    exact split.symm
  · have plain := generated.emoji_plain _ longest.2.1
    obtain ⟨more, rfl, -⟩ := longest.cons
    rcases boundary.head with rfl | rfl
    · exact plain.1 List.mem_cons_self
    · exact plain.2.2.1 List.mem_cons_self

theorem Step.swap {c c' : Config} {out : List Char} (swap : Swap t c.source x x')
    (h : Step t (c.extend x) c' out) :
    ∃ (c₁ : Config) (before : List Char), c' = c₁.extend x ∧ c.source = before ++ c₁.source ∧
      Step t (c.extend x') (c₁.extend x') out := by
  cases c with
  | lead w =>
      cases w with
      | nil => exact absurd h (Barrier.stuck generated swap.barrier)
      | cons a w =>
          cases h with
          | ignored literal ignored =>
              have escape : a ≠ '\\' := by
                rintro rfl
                obtain ⟨not_xid, visible, -⟩ := t.syntax_code_point '\\' (.inr rfl)
                exact ignored.elim visible fun mark => not_xid mark.1.1
              exact ⟨.lead w, [a], rfl, rfl, .ignored (literal.swap generated swap escape) ignored⟩
          | starter starter =>
              cases starter with
              | emoji emoji rest split longest no_boundary =>
                  obtain ⟨w', rfl, whole, longest', no_boundary'⟩ := emoji_swap generated swap split longest
                  refine ⟨.body false w', _, rfl, whole, .starter (.emoji _ _ ?_ longest' no_boundary')⟩
                  rw [whole, List.append_assoc]
              | unit c rest joinable literal visible spacing starts flag =>
                  have escape := ne_backslash_of_unit (starts.imp_left And.left)
                  exact ⟨.body _ w, [a], rfl, rfl,
                    .starter (.unit a _ _ (literal.swap generated swap escape) visible spacing starts flag)⟩
  | body j w =>
      cases w with
      | nil => exact absurd h (Barrier.stuck generated swap.barrier)
      | cons a w =>
          cases h with
          | slash => exact ⟨.lead w, ['/'], rfl, rfl, .slash j _⟩
          | continuation continuation =>
              cases continuation with
              | emoji joinable emoji rest split longest no_boundary =>
                  obtain ⟨w', rfl, whole, longest', no_boundary'⟩ := emoji_swap generated swap split longest
                  refine ⟨.body false w', _, rfl, whole, .continuation (.emoji j _ _ ?_ longest' no_boundary')⟩
                  rw [whole, List.append_assoc]
              | ignorable joinable c rest literal ignorable =>
                  have escape := ne_backslash_of_ignorable ignorable
                  exact ⟨.body false w, [_], rfl, rfl,
                    .continuation (.ignorable j _ _ (literal.swap generated swap escape) ignorable)⟩
              | joiner c rest literal visible apostrophe joins =>
                  have escape : a ≠ '\\' := by
                    rintro rfl
                    simp [Apostrophe] at apostrophe
                  exact ⟨.body false w, [a], rfl, rfl, .continuation (.joiner a _
                    (literal.swap generated swap escape) visible apostrophe
                    (joins.swap generated swap.tail))⟩
              | unit joinable c rest joinable' literal visible no_joiner continues flag =>
                  have escape := ne_backslash_of_unit continues
                  refine ⟨.body _ w, [a], rfl, rfl, .continuation (.unit j a _ _
                    (literal.swap generated swap escape) visible ?_ continues flag)⟩
                  rintro ⟨joinable, apostrophe, joins⟩
                  exact no_joiner ⟨joinable, apostrophe, joins.swap generated swap.tail.symm⟩

theorem path_swap {d d' : Config} {out : List Char} (h : Path (Step t) d d' out) :
    ∀ c : Config, c.extend x = d → Swap t c.source x x' →
      ∃ (c₁ : Config) (before : List Char), d' = c₁.extend x ∧ c.source = before ++ c₁.source ∧
        Path (Step t) (c.extend x') (c₁.extend x') out := by
  induction h with
  | refl d =>
      rintro c rfl -
      exact ⟨c, [], rfl, rfl, .refl _⟩
  | head first tail ih =>
      rintro c rfl swap
      obtain ⟨c₁, before, rfl, whole, step⟩ := first.swap generated swap
      rw [whole] at swap
      obtain ⟨c₂, before', rfl, whole', path⟩ := ih c₁ rfl (swap.of_append before)
      refine ⟨c₂, before ++ before', rfl, ?_, .head step path⟩
      rw [whole, whole', List.append_assoc]

/-! ### Tags -/

theorem TagSourceSpelling.swap {r value : List Char} (swap : Swap t w x x')
    (h : TagSourceSpelling t (w ++ x) r value) :
    ∃ before w', r = w' ++ x ∧ w = before ++ w' ∧ TagSourceSpelling t (w ++ x') (w' ++ x') value := by
  obtain ⟨j, path⟩ := h.path
  obtain ⟨c, before, ended, whole, path'⟩ := path_swap generated path (.lead w) rfl swap
  cases c with
  | lead w' => cases ended
  | body j' w' =>
      obtain ⟨rfl, rfl⟩ := Config.body.inj ended
      exact ⟨before, w', rfl, whole, derivation_of_path path' _ _ rfl⟩

theorem LongestSpelling.swap {spelling value : List Char} (swap : Swap t w x x')
    (h : LongestSpelling t (w ++ x) spelling value) : LongestSpelling t (w ++ x') spelling value := by
  obtain ⟨r, split, derived⟩ := h.derived
  obtain ⟨before, w', rfl, rfl, derived'⟩ := derived.swap generated swap
  have same : before = spelling := by
    rw [List.append_assoc] at split
    exact List.append_cancel_right split
  subst same
  refine ⟨⟨w' ++ x', List.append_assoc _ _ _, derived'⟩, fun rest value' other => ?_⟩
  obtain ⟨before', w'', rfl, whole, other'⟩ := other.swap generated swap.symm
  have le := h.longest _ _ other'
  simp only [List.length_append] at le ⊢
  omega

theorem TagAt.swap {spelling value : List Char} (swap : Swap t ('#' :: w) x x')
    (h : TagAt t ('#' :: w ++ x) spelling value) : TagAt t ('#' :: w ++ x') spelling value := by
  obtain ⟨rest, split, longest⟩ := h.introduced
  obtain rfl : w ++ x = rest := (List.cons.inj split).2
  refine ⟨?_, w ++ x', rfl, longest.swap generated swap.tail⟩
  rintro ⟨emoji, found⟩
  exact h.no_emoji ⟨emoji, found.swap generated swap.barrier' swap.barrier⟩

/-! ### Ampersands -/

omit generated in
theorem Step.consumes {c c' : Config} {out : List Char} (h : Step t c c' out) :
    ∃ before, c.source = before ++ c'.source := by
  cases h with
  | @ignored c s => exact ⟨[c], rfl⟩
  | slash j s => exact ⟨['/'], rfl⟩
  | starter starter =>
      cases starter with
      | emoji emoji rest split => exact ⟨_, split⟩
      | unit c rest => exact ⟨[c], rfl⟩
  | continuation continuation =>
      cases continuation with
      | emoji j emoji rest split => exact ⟨_, split⟩
      | ignorable j c rest => exact ⟨[c], rfl⟩
      | joiner c rest => exact ⟨[c], rfl⟩
      | unit j c rest => exact ⟨[c], rfl⟩

omit generated in
theorem path_consumes {c c' : Config} {out : List Char} (h : Path (Step t) c c' out) :
    ∃ before, c.source = before ++ c'.source := by
  induction h with
  | refl c => exact ⟨[], rfl⟩
  | head first _ ih =>
      obtain ⟨before, whole⟩ := first.consumes
      obtain ⟨more, rest⟩ := ih
      exact ⟨before ++ more, by rw [whole, rest, List.append_assoc]⟩

omit generated in
/-- The ampersand that a code point is. -/
theorem no_boundary_of_single {a s : List Char} {c : Char} (literal : Literal t (c :: s))
    (whole : c :: s = a ++ '&' :: s) : ¬Boundary t ('&' :: s) := by
  have size := congrArg List.length whole
  rw [List.length_append, List.length_cons, List.length_cons] at size
  obtain rfl : a = [] := List.length_eq_zero_iff.mp (by omega)
  obtain rfl : c = '&' := (List.cons.inj whole).1
  exact literal.no_boundary

theorem no_ampersand_in_emoji {a s source emoji : List Char} (longest : FullyQualifiedEmoji t source emoji)
    (whole : emoji ++ s = a ++ '&' :: s) : ¬Boundary t ('&' :: s) := by
  have plain := (generated.emoji_plain _ longest.2.1).1
  rw [List.append_cons, List.append_cancel_right_eq] at whole
  exact absurd (whole ▸ List.mem_append_right a (List.mem_singleton_self '&')) plain

/-- An ampersand that a step reads begins no reference. -/
theorem Step.no_boundary {c c' : Config} {out a : List Char} (h : Step t c c' out)
    (whole : c.source = a ++ '&' :: c'.source) : ¬Boundary t ('&' :: c'.source) := by
  cases h with
  | ignored literal => exact no_boundary_of_single literal whole
  | slash j s =>
      have size := congrArg List.length whole
      simp only [Config.source, List.length_append, List.length_cons] at size
      obtain rfl : a = [] := List.length_eq_zero_iff.mp (by omega)
      cases whole
  | starter starter =>
      cases starter with
      | emoji emoji rest split longest =>
          exact no_ampersand_in_emoji generated longest (split.symm.trans whole)
      | unit c rest joinable literal => exact no_boundary_of_single literal whole
  | continuation continuation =>
      cases continuation with
      | emoji j emoji rest split longest =>
          exact no_ampersand_in_emoji generated longest (split.symm.trans whole)
      | ignorable j c rest literal => exact no_boundary_of_single literal whole
      | joiner c rest literal => exact no_boundary_of_single literal whole
      | unit j c rest joinable literal => exact no_boundary_of_single literal whole

theorem path_no_boundary {c c' : Config} {out : List Char} (h : Path (Step t) c c' out) :
    ∀ a, c.source = a ++ '&' :: c'.source → ¬Boundary t ('&' :: c'.source) := by
  induction h with
  | refl c =>
      intro a whole
      have size := congrArg List.length whole
      rw [List.length_append, List.length_cons] at size
      omega
  | @head c c₁ c' first rest step tail ih =>
      intro a whole
      obtain ⟨before, split⟩ := step.consumes
      obtain ⟨more, left⟩ := path_consumes tail
      rcases List.eq_nil_or_concat more with rfl | ⟨more, d, rfl⟩
      · rw [List.nil_append] at left
        rw [← left] at whole ⊢
        exact step.no_boundary generated whole
      · have same := whole
        rw [split, left, ← List.append_assoc, List.append_cons a, List.append_cancel_right_eq,
          List.concat_eq_append, ← List.append_assoc] at same
        obtain rfl : d = '&' := by
          have last := congrArg List.getLast? same
          simpa using last
        refine ih more ?_
        rw [left, List.concat_eq_append, List.append_assoc]
        rfl

/-- The ampersand at the end of a tag begins no reference. -/
theorem TagAt.no_reference {spelling value rest : List Char}
    (h : TagAt t ('#' :: spelling ++ rest) spelling value)
    (last : ('#' :: spelling).getLast? = some '&') :
    ¬∃ reference, ReferenceAt t ('&' :: rest) reference := by
  obtain ⟨s, split, longest⟩ := h.introduced
  obtain rfl : spelling ++ rest = s := (List.cons.inj split).2
  obtain ⟨r, same, derived⟩ := longest.derived
  obtain rfl : rest = r := List.append_cancel_left same
  obtain ⟨j, path⟩ := derived.path
  rcases List.eq_nil_or_concat spelling with rfl | ⟨a, d, rfl⟩
  · cases last
  · rw [List.concat_eq_append, ← List.cons_append, List.getLast?_concat, Option.some.injEq] at last
    subst last
    rintro ⟨reference, found⟩
    refine path_no_boundary generated path a ?_ (.inl ⟨reference, found⟩)
    simp [Config.source]

end

end Memos.Markdown

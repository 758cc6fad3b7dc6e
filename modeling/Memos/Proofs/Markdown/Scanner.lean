/-
The scanner reads the longest spelling.

The grammar is first read as a machine: a configuration is the source left and whether
the current segment has its starter yet, a step reads one token, and a derivation is a
path that ends behind a starter.  The priority between tokens makes the machine
deterministic, so its paths are on one line (`Munch`).  The two loops over a segment go
along that line until no token fits.  Behind a slash they may go on for a while and find
no starter; nothing accepting is reached there, which is why giving the slash back loses
nothing.
-/
import Memos.Proofs.Markdown.Lookup

namespace Memos.Markdown

open Utf8 Munch

variable {t : Tables}

/-! ### The grammar as a machine -/

inductive Config where
  | lead (source : List Char)
  | body (joinable : Bool) (source : List Char)

def Config.size : Config → Nat
  | .lead source => source.length
  | .body _ source => source.length

def Config.Accepting : Config → Prop
  | .lead _ => False
  | .body _ _ => True

inductive Step (t : Tables) : Config → Config → List Char → Prop
  | ignored {c : Char} {s : List Char} (literal : Literal t (c :: s))
      (ignored : DefaultIgnorable t c ∨ IgnoredLeadingCombiningMark t c) :
      Step t (.lead (c :: s)) (.lead s) []
  | starter {s r value : List Char} {joinable : Bool} (starter : SegmentStarter t s joinable r value) :
      Step t (.lead s) (.body joinable r) value
  | continuation {s r value : List Char} {joinable joinable' : Bool}
      (continuation : SegmentContinuation t joinable s joinable' r value) :
      Step t (.body joinable s) (.body joinable' r) value
  | slash (joinable : Bool) (s : List Char) : Step t (.body joinable ('/' :: s)) (.lead s) ['/']

theorem flag_eq {P : Prop} {a b : Bool} (ha : a = true ↔ P) (hb : b = true ↔ P) : a = b :=
  Bool.eq_iff_iff.mpr (ha.trans hb.symm)

theorem SegmentStarter.unique {s r r' value value' : List Char} {joinable joinable' : Bool}
    (h : SegmentStarter t s joinable r value) (h' : SegmentStarter t s joinable' r' value') :
    joinable = joinable' ∧ r = r' ∧ value = value' := by
  cases h with
  | emoji emoji rest split longest no_boundary =>
      cases h' with
      | emoji emoji' rest' split' longest' no_boundary' =>
          obtain rfl := longest.unique longest'
          exact ⟨rfl, List.append_cancel_left (split.symm.trans split'), rfl⟩
      | unit c rest joinable literal visible spacing starts flag =>
          exact absurd ⟨_, longest⟩ literal.no_emoji
  | unit c rest joinable literal visible spacing starts flag =>
      cases h' with
      | emoji emoji' rest' split' longest' no_boundary' => exact absurd ⟨_, longest'⟩ literal.no_emoji
      | unit _ _ joinable' literal' visible' spacing' starts' flag' =>
          exact ⟨flag_eq flag flag', rfl, rfl⟩

theorem SegmentContinuation.unique {s r r' value value' : List Char} {j joinable joinable' : Bool}
    (h : SegmentContinuation t j s joinable r value)
    (h' : SegmentContinuation t j s joinable' r' value') :
    joinable = joinable' ∧ r = r' ∧ value = value' := by
  cases h with
  | emoji _ emoji rest split longest =>
      cases h' with
      | emoji _ emoji' rest' split' longest' =>
          obtain rfl := longest.unique longest'
          exact ⟨rfl, List.append_cancel_left (split.symm.trans split'), rfl⟩
      | ignorable _ c rest literal => exact absurd ⟨_, longest⟩ literal.no_emoji
      | joiner c rest literal => exact absurd ⟨_, longest⟩ literal.no_emoji
      | unit _ c rest _ literal => exact absurd ⟨_, longest⟩ literal.no_emoji
  | ignorable _ c rest literal ignorable =>
      cases h' with
      | emoji _ emoji' rest' split' longest' => exact absurd ⟨_, longest'⟩ literal.no_emoji
      | ignorable => exact ⟨rfl, rfl, rfl⟩
      | joiner _ _ _ visible => exact absurd ignorable visible
      | unit _ _ _ _ _ visible => exact absurd ignorable visible
  | joiner c rest literal visible apostrophe joins =>
      cases h' with
      | emoji _ emoji' rest' split' longest' => exact absurd ⟨_, longest'⟩ literal.no_emoji
      | ignorable _ _ _ _ ignorable => exact absurd ignorable visible
      | joiner => exact ⟨rfl, rfl, rfl⟩
      | unit _ _ _ _ _ _ no_joiner => exact absurd ⟨rfl, apostrophe, joins⟩ no_joiner
  | unit _ c rest joinable literal visible no_joiner continues flag =>
      cases h' with
      | emoji _ emoji' rest' split' longest' => exact absurd ⟨_, longest'⟩ literal.no_emoji
      | ignorable _ _ _ _ ignorable => exact absurd ignorable visible
      | joiner _ _ _ _ apostrophe joins => exact absurd ⟨rfl, apostrophe, joins⟩ no_joiner
      | unit _ _ _ _ _ _ _ _ flag' => exact ⟨flag_eq flag flag', rfl, rfl⟩

/-- No token of a segment begins with a slash or a backslash. -/
theorem not_continuation_of_separator {c : Char} (hc : c = '/' ∨ c = '\\') {s r value : List Char}
    {j joinable : Bool} : ¬ SegmentContinuation t j (c :: s) joinable r value := by
  obtain ⟨not_xid, visible, not_emoji⟩ := t.syntax_code_point c hc
  intro h
  cases h with
  | emoji _ emoji rest split longest =>
      obtain ⟨a, as, rfl⟩ := List.exists_cons_of_ne_nil longest.ne_nil
      obtain rfl : c = a := (List.cons.inj split).1
      have unknown := not_emoji as
      rw [longest.2.1] at unknown
      exact nomatch unknown
  | ignorable _ _ _ _ ignorable => exact visible ignorable
  | joiner _ _ _ _ apostrophe =>
      rcases hc with rfl | rfl
      · exact absurd apostrophe (by simp [Apostrophe])
      · exact absurd apostrophe (by simp [Apostrophe])
  | unit _ _ _ _ _ _ _ continues =>
      rcases continues with xid | extension
      · exact not_xid xid.1
      · rcases hc with rfl | rfl
        · exact absurd extension (by simp [Extension])
        · exact absurd extension (by simp [Extension])

theorem SegmentStarter.length_lt {s r value : List Char} {joinable : Bool}
    (h : SegmentStarter t s joinable r value) : r.length < s.length := by
  cases h with
  | emoji emoji rest split longest =>
      have := List.length_pos_iff.mpr longest.ne_nil
      rw [split, List.length_append]
      omega
  | unit => exact Nat.lt_succ_self _

theorem SegmentContinuation.length_lt {s r value : List Char} {j joinable : Bool}
    (h : SegmentContinuation t j s joinable r value) : r.length < s.length := by
  cases h with
  | emoji _ emoji rest split longest =>
      have := List.length_pos_iff.mpr longest.ne_nil
      rw [split, List.length_append]
      omega
  | ignorable => exact Nat.lt_succ_self _
  | joiner => exact Nat.lt_succ_self _
  | unit => exact Nat.lt_succ_self _

theorem not_starter_of_ignored {c : Char} {s r value : List Char} {joinable : Bool}
    (literal : Literal t (c :: s)) (ignored : DefaultIgnorable t c ∨ IgnoredLeadingCombiningMark t c) :
    ¬ SegmentStarter t (c :: s) joinable r value := by
  intro h
  cases h with
  | emoji emoji rest split longest => exact literal.no_emoji ⟨_, longest⟩
  | unit _ _ _ _ visible spacing =>
      rcases ignored with ignorable | mark
      · exact visible ignorable
      · exact spacing mark

theorem step_deterministic (t : Tables) : Deterministic (Step t) Config.size where
  unique := by
    intro c c₁ c₂ out₁ out₂ h h'
    cases h with
    | ignored literal ignored =>
        cases h' with
        | ignored => exact ⟨rfl, rfl⟩
        | starter starter => exact absurd starter (not_starter_of_ignored literal ignored)
    | starter starter =>
        cases h' with
        | ignored literal ignored => exact absurd starter (not_starter_of_ignored literal ignored)
        | starter starter' =>
            obtain ⟨rfl, rfl, rfl⟩ := starter.unique starter'
            exact ⟨rfl, rfl⟩
    | continuation continuation =>
        cases h' with
        | continuation continuation' =>
            obtain ⟨rfl, rfl, rfl⟩ := continuation.unique continuation'
            exact ⟨rfl, rfl⟩
        | slash => exact absurd continuation (not_continuation_of_separator (.inl rfl))
    | slash =>
        cases h' with
        | continuation continuation =>
            exact absurd continuation (not_continuation_of_separator (.inl rfl))
        | slash => exact ⟨rfl, rfl⟩
  shrinks := by
    intro c c' out h
    cases h with
    | ignored => exact Nat.lt_succ_self _
    | starter starter => exact starter.length_lt
    | continuation continuation => exact continuation.length_lt
    | slash => exact Nat.lt_succ_self _

/-! ### Derivations are paths -/

theorem IgnoredPrefix.path {s r : List Char} (h : IgnoredPrefix t s r) :
    Path (Step t) (.lead s) (.lead r) [] := by
  induction h with
  | nil s => exact .refl _
  | cons literal ignored _ ih => exact .head (.ignored literal ignored) ih

theorem SegmentContinuations.path {joinable : Bool} {s r value : List Char}
    (h : SegmentContinuations t joinable s r value) :
    ∃ joinable', Path (Step t) (.body joinable s) (.body joinable' r) value := by
  induction h with
  | nil joinable s => exact ⟨joinable, .refl _⟩
  | cons first _ ih =>
      obtain ⟨joinable', path⟩ := ih
      exact ⟨joinable', .head (.continuation first) path⟩

theorem TagSegmentSpelling.path {s r value : List Char} (h : TagSegmentSpelling t s r value) :
    ∃ joinable, Path (Step t) (.lead s) (.body joinable r) value := by
  obtain ⟨ignored, starter, continuations⟩ := h
  obtain ⟨joinable, path⟩ := continuations.path
  exact ⟨joinable, ignored.path.trans (.head (.starter starter) path)⟩

theorem TagSourceSpelling.path {s r value : List Char} (h : TagSourceSpelling t s r value) :
    ∃ joinable, Path (Step t) (.lead s) (.body joinable r) value := by
  induction h with
  | segment segment => exact segment.path
  | hierarchy segment _ ih =>
      obtain ⟨j, first⟩ := segment.path
      obtain ⟨joinable, rest⟩ := ih
      exact ⟨joinable, first.trans (.head (.slash j _) rest)⟩

/-- What the grammar can still derive from inside a segment. -/
def Remainder (t : Tables) (joinable : Bool) (s r value : List Char) : Prop :=
  SegmentContinuations t joinable s r value ∨
    ∃ s' first rest, SegmentContinuations t joinable s ('/' :: s') first ∧
      TagSourceSpelling t s' r rest ∧ value = first ++ '/' :: rest

theorem TagSourceSpelling.ignore {c : Char} {s r value : List Char} (literal : Literal t (c :: s))
    (ignored : DefaultIgnorable t c ∨ IgnoredLeadingCombiningMark t c)
    (h : TagSourceSpelling t s r value) : TagSourceSpelling t (c :: s) r value := by
  cases h with
  | segment segment =>
      obtain ⟨leading, starter, continuations⟩ := segment
      exact .segment (.mk (.cons literal ignored leading) starter continuations)
  | hierarchy segment tail =>
      obtain ⟨leading, starter, continuations⟩ := segment
      exact .hierarchy (.mk (.cons literal ignored leading) starter continuations) tail

theorem Remainder.start {s s' r first rest : List Char} {joinable : Bool}
    (starter : SegmentStarter t s joinable s' first) (h : Remainder t joinable s' r rest) :
    TagSourceSpelling t s r (first ++ rest) := by
  rcases h with continuations | ⟨s'', v, w, continuations, tail, rfl⟩
  · exact .segment (.mk (.nil s) starter continuations)
  · rw [← List.append_assoc]
    exact .hierarchy (.mk (.nil s) starter continuations) tail

theorem Remainder.further {s s' r first rest : List Char} {joinable joinable' : Bool}
    (continuation : SegmentContinuation t joinable s joinable' s' first)
    (h : Remainder t joinable' s' r rest) : Remainder t joinable s r (first ++ rest) := by
  rcases h with continuations | ⟨s'', v, w, continuations, tail, rfl⟩
  · exact .inl (.cons continuation continuations)
  · exact .inr ⟨s'', first ++ v, w, .cons continuation continuations, tail, by rw [List.append_assoc]⟩

/-- Every accepting path is a derivation, from the start of a segment or inside one. -/
theorem derivation_of_path {c c' : Config} {out : List Char} (h : Path (Step t) c c' out) :
    ∀ joinable r, c' = .body joinable r →
      match c with
      | .lead s => TagSourceSpelling t s r out
      | .body j s => Remainder t j s r out := by
  induction h with
  | refl c =>
      rintro joinable r rfl
      exact .inl (.nil joinable r)
  | head first _ ih =>
      intro joinable r hc
      have rest := ih joinable r hc
      cases first with
      | ignored literal ignored => exact .ignore literal ignored rest
      | starter starter => exact Remainder.start starter rest
      | continuation continuation => exact Remainder.further continuation rest
      | slash j s => exact .inr ⟨s, [], _, .nil j _, rest, rfl⟩

/-! ### What the scanner tests -/

theorem isSegmentStarter_iff {c : Char} : isSegmentStarter t c = true ↔
    EmittedXIDContinueExceptCombiningMark t c ∨ Extension c := by
  simp only [isSegmentStarter, Bool.or_eq_true, Bool.and_eq_true, Bool.not_eq_true', decide_eq_true_eq,
    ← Bool.not_eq_true, isXIDContinue_iff, isCombiningMark_iff, isDefaultIgnorable_iff,
    EmittedXIDContinueExceptCombiningMark, EmittedXIDContinue, Extension]
  tauto

theorem isSegmentContinuation_iff {c : Char} : isSegmentContinuation t c = true ↔
    EmittedXIDContinue t c ∨ Extension c := by
  simp only [isSegmentContinuation, Bool.or_eq_true, Bool.and_eq_true, Bool.not_eq_true',
    decide_eq_true_eq, ← Bool.not_eq_true, isXIDContinue_iff, isDefaultIgnorable_iff,
    EmittedXIDContinue, Extension]
  tauto

theorem emits_xid_iff {c : Char} :
    (isXIDContinue t c && !isDefaultIgnorable t c) = true ↔ EmittedXIDContinue t c := by
  simp [EmittedXIDContinue, ← Bool.not_eq_true]

theorem isApostropheJoiner_iff {c : Char} : isApostropheJoiner c = true ↔ Apostrophe c := by
  simp [isApostropheJoiner, Apostrophe]

theorem ReferenceAt.head {c : Char} {s reference : List Char} (h : ReferenceAt t (c :: s) reference) :
    c = '&' := by
  obtain ⟨⟨rest, split⟩, reference⟩ := h
  cases reference with
  | decimal => exact (List.cons.inj split).1.symm
  | hexadecimal => exact (List.cons.inj split).1.symm
  | named => exact (List.cons.inj split).1.symm

theorem reference_test {c : Char} {s : List Char} :
    (c = '&' && decide (0 < characterReferenceLength t (c :: s))) = true ↔
      ∃ reference, ReferenceAt t (c :: s) reference := by
  rw [Bool.and_eq_true, decide_eq_true_eq, decide_eq_true_eq, characterReferenceLength_pos]
  exact ⟨fun h => h.2, fun ⟨reference, h⟩ => ⟨h.head, reference, h⟩⟩

/-- Away from a backslash only a reference ends the literal text. -/
theorem boundary_iff {c : Char} {s : List Char} (hc : c ≠ '\\') :
    Boundary t (c :: s) ↔ ∃ reference, ReferenceAt t (c :: s) reference := by
  constructor
  · rintro (reference | ⟨escape, d, rest, split, -⟩)
    · exact reference
    · exact absurd (List.cons.inj split).1 hc
  · exact .inl

theorem FullyQualifiedEmoji.head_ne {c : Char} {s emoji : List Char}
    (h : FullyQualifiedEmoji t (c :: s) emoji) : c ≠ '\\' := by
  rintro rfl
  obtain ⟨a, as, rfl⟩ := List.exists_cons_of_ne_nil h.ne_nil
  have same : a = '\\' := (List.cons_prefix_cons.mp h.1).1
  have unknown := (t.syntax_code_point '\\' (.inr rfl)).2.2 as
  rw [← same, h.2.1] at unknown
  exact nomatch unknown

theorem ne_backslash_of_unit {c : Char} (h : EmittedXIDContinue t c ∨ Extension c) : c ≠ '\\' := by
  rintro rfl
  rcases h with xid | extension
  · exact (t.syntax_code_point _ (.inr rfl)).1 xid.1
  · simp [Extension] at extension

theorem ne_backslash_of_ignorable {c : Char} (h : DefaultIgnorable t c) : c ≠ '\\' := by
  rintro rfl
  exact (t.syntax_code_point _ (.inr rfl)).2.1 h

theorem literal_of {c : Char} {s : List Char} (hc : c ≠ '\\')
    (no_reference : ¬ ∃ reference, ReferenceAt t (c :: s) reference)
    (no_emoji : ¬ ∃ emoji, FullyQualifiedEmoji t (c :: s) emoji) : Literal t (c :: s) :=
  ⟨no_emoji, fun boundary => no_reference ((boundary_iff hc).mp boundary)⟩

theorem startsNonCombiningXIDContinuation_iff {s : List Char} :
    startsNonCombiningXIDContinuation t s = true ↔ Joins t s := by
  cases s with
  | nil =>
      constructor
      · intro h
        cases h
      · rintro ⟨c, rest, split, -⟩
        cases split
  | cons c s =>
      rw [startsNonCombiningXIDContinuation]
      split
      · rename_i emoji
        rw [matchFullyQualifiedEmoji_pos] at emoji
        constructor
        · intro h
          cases h
        · rintro ⟨_, _, -, literal, -⟩
          exact absurd emoji literal.no_emoji
      · rename_i no_emoji
        rw [matchFullyQualifiedEmoji_pos] at no_emoji
        have class_iff : (isXIDContinue t c && !isCombiningMark t c && !isDefaultIgnorable t c) = true ↔
            EmittedXIDContinueExceptCombiningMark t c := by
          simp only [Bool.and_eq_true, Bool.not_eq_true', ← Bool.not_eq_true, isXIDContinue_iff,
            isCombiningMark_iff, isDefaultIgnorable_iff, EmittedXIDContinueExceptCombiningMark,
            EmittedXIDContinue]
          tauto
        rw [class_iff]
        constructor
        · intro xid
          refine ⟨c, s, rfl, literal_of (ne_backslash_of_unit (.inl xid.1)) ?_ no_emoji, xid⟩
          rintro ⟨reference, h⟩
          exact t.ampersand_not_xid (h.head ▸ xid.1.1)
        · rintro ⟨d, rest, split, -, xid⟩
          rw [(List.cons.inj split).1]
          exact xid

/-! ### The starter of a segment -/

/-- Nothing that a derivation could end with is reached. -/
def Barren (t : Tables) (c : Config) : Prop :=
  ∀ c' out, Path (Step t) c c' out → ¬ c'.Accepting

theorem barren_of_stuck {s : List Char} (stuck : ∀ c out, ¬ Step t (.lead s) c out) :
    Barren t (.lead s) := by
  intro c out path accepting
  cases path with
  | refl => exact accepting
  | head first => exact stuck _ _ first

theorem Barren.ignore {c : Char} {s : List Char} (literal : Literal t (c :: s))
    (ignored : DefaultIgnorable t c ∨ IgnoredLeadingCombiningMark t c) (h : Barren t (.lead s)) :
    Barren t (.lead (c :: s)) := by
  intro c' out path accepting
  cases path with
  | refl => exact accepting
  | head first tail =>
      cases first with
      | ignored => exact h _ _ tail accepting
      | starter starter => exact not_starter_of_ignored literal ignored starter

theorem scanStarter_spec (source : List Char) (pos : Nat) :
    (∃ w r value joinable, source = w ++ r ∧
        scanStarter t source pos = some (pos + byteLength w, value, joinable) ∧
        Path (Step t) (.lead source) (.body joinable r) value) ∨
      scanStarter t source pos = none ∧ Barren t (.lead source) := by
  induction source generalizing pos with
  | nil =>
      refine .inr ⟨rfl, barren_of_stuck fun c out step => ?_⟩
      cases step with
      | starter starter => exact absurd starter.length_lt (Nat.not_lt_zero _)
  | cons c s ih =>
      rw [scanStarter]
      dsimp only
      split
      · -- A character reference.
        rename_i reference
        have boundary : Boundary t (c :: s) := .inl (reference_test.mp reference)
        refine .inr ⟨rfl, barren_of_stuck fun c' out step => ?_⟩
        cases step with
        | ignored literal => exact literal.no_boundary boundary
        | starter starter =>
            cases starter with
            | emoji _ _ _ _ no_boundary => exact no_boundary boundary
            | unit _ _ _ literal => exact literal.no_boundary boundary
      rename_i no_reference
      rw [reference_test] at no_reference
      split
      · rename_i found
        obtain ⟨emoji, longest⟩ := matchFullyQualifiedEmoji_pos.mp found
        obtain ⟨r, split⟩ := longest.1
        have no_boundary : ¬ Boundary t (c :: s) :=
          fun boundary => no_reference ((boundary_iff longest.head_ne).mp boundary)
        refine .inl ⟨emoji, r, emoji, false, split.symm, ?_, ?_⟩
        · rw [matchFullyQualifiedEmoji_eq longest, ← split, takeBytes_byteLength]
        · exact .single (.starter (.emoji emoji r split.symm longest no_boundary))
      rename_i no_emoji
      rw [matchFullyQualifiedEmoji_pos] at no_emoji
      have skip : ∀ ignored : DefaultIgnorable t c ∨ IgnoredLeadingCombiningMark t c,
          (∃ w r value joinable, c :: s = w ++ r ∧
              scanStarter t s (pos + c.utf8Size) = some (pos + byteLength w, value, joinable) ∧
              Path (Step t) (.lead (c :: s)) (.body joinable r) value) ∨
            scanStarter t s (pos + c.utf8Size) = none ∧ Barren t (.lead (c :: s)) := by
        intro ignored
        have hc : c ≠ '\\' := by
          rcases ignored with ignorable | mark
          · exact ne_backslash_of_ignorable ignorable
          · exact ne_backslash_of_unit (.inl mark.1)
        have literal := literal_of hc no_reference no_emoji
        rcases ih (pos + c.utf8Size) with ⟨w, r, value, joinable, rfl, result, path⟩ | ⟨result, barren⟩
        · refine .inl ⟨c :: w, r, value, joinable, rfl, ?_, .head (.ignored literal ignored) path⟩
          rw [result, byteLength_cons, Nat.add_assoc]
        · exact .inr ⟨result, barren.ignore literal ignored⟩
      split
      · rename_i ignorable
        exact skip (.inl (isDefaultIgnorable_iff.mp ignorable))
      rename_i visible
      rw [isDefaultIgnorable_iff] at visible
      split
      · rename_i mark
        rw [Bool.and_eq_true, isXIDContinue_iff, isCombiningMark_iff] at mark
        exact skip (.inr ⟨⟨mark.1, visible⟩, mark.2⟩)
      rename_i not_mark
      rw [Bool.and_eq_true, isXIDContinue_iff, isCombiningMark_iff] at not_mark
      have spacing : ¬ IgnoredLeadingCombiningMark t c := fun mark => not_mark ⟨mark.1.1, mark.2⟩
      split
      · rename_i starts
        rw [isSegmentStarter_iff] at starts
        have hc : c ≠ '\\' := ne_backslash_of_unit (starts.imp_left And.left)
        refine .inl ⟨[c], s, [c], isXIDContinue t c && !isDefaultIgnorable t c, rfl, by simp, ?_⟩
        exact .single (.starter (.unit c s _ (literal_of hc no_reference no_emoji) visible spacing
          starts emits_xid_iff))
      · rename_i no_start
        rw [isSegmentStarter_iff] at no_start
        refine .inr ⟨rfl, barren_of_stuck fun c' out step => ?_⟩
        cases step with
        | ignored literal ignored =>
            rcases ignored with ignorable | mark
            · exact visible ignorable
            · exact spacing mark
        | starter starter =>
            cases starter with
            | emoji _ _ _ longest => exact no_emoji ⟨_, longest⟩
            | unit _ _ _ _ _ _ starts => exact no_start starts

/-! ### The rest of a segment -/

/-- No token of the segment fits. -/
def Ended (t : Tables) (joinable : Bool) (s : List Char) : Prop :=
  ∀ joinable' r value, ¬ SegmentContinuation t joinable s joinable' r value

/-- What the second loop has done: it went on to where the segment ends. -/
def Scanned (t : Tables) (pos : Nat) (value : List Char) (joinable : Bool) (source : List Char)
    (result : Nat × List Char) : Prop :=
  ∃ w r more joinable', source = w ++ r ∧ result = (pos + byteLength w, value ++ more) ∧
    Path (Step t) (.body joinable source) (.body joinable' r) more ∧ Ended t joinable' r

theorem Scanned.stop {pos : Nat} {value source : List Char} {joinable : Bool}
    (ended : Ended t joinable source) : Scanned t pos value joinable source (pos, value) :=
  ⟨[], source, [], joinable, rfl, by simp, .refl _, ended⟩

theorem Scanned.step {pos : Nat} {value source w r more : List Char} {joinable joinable' : Bool}
    {result : Nat × List Char} (split : source = w ++ r)
    (first : SegmentContinuation t joinable source joinable' r more)
    (h : Scanned t (pos + byteLength w) (value ++ more) joinable' r result) :
    Scanned t pos value joinable source result := by
  obtain ⟨w', r', more', joinable'', rfl, rfl, path, ended⟩ := h
  refine ⟨w ++ w', r', more ++ more', joinable'', ?_, ?_, .head (.continuation first) path, ended⟩
  · rw [split, List.append_assoc]
  · rw [byteLength_append, Nat.add_assoc, List.append_assoc]

/-- The second loop reads every token of the segment. -/
theorem scanContinuations_spec (source : List Char) (pos : Nat) (value : List Char) (joinable : Bool) :
    Scanned t pos value joinable source (scanContinuations t source pos value joinable) := by
  induction source, pos, value, joinable using scanContinuations.induct t with
  | case1 pos value joinable =>
      rw [scanContinuations]
      exact .stop fun _ _ _ h => absurd h.length_lt (Nat.not_lt_zero _)
  | case2 pos value joinable c s reference =>
      have boundary : Boundary t (c :: s) := .inl (reference_test.mp reference)
      rw [scanContinuations, if_pos reference]
      refine .stop fun _ _ _ h => ?_
      cases h with
      | emoji _ _ _ _ _ no_boundary => exact no_boundary boundary
      | ignorable _ _ _ literal => exact literal.no_boundary boundary
      | joiner _ _ literal => exact literal.no_boundary boundary
      | unit _ _ _ _ literal => exact literal.no_boundary boundary
  | case3 pos value joinable c s no_reference found _ ih =>
      obtain ⟨emoji, longest⟩ := matchFullyQualifiedEmoji_pos.mp found
      obtain ⟨r, split⟩ := longest.1
      have no_boundary : ¬ Boundary t (c :: s) :=
        fun boundary => no_reference (reference_test.mpr ((boundary_iff longest.head_ne).mp boundary))
      rw [scanContinuations, if_neg no_reference, dif_pos found]
      dsimp only
      rw [matchFullyQualifiedEmoji_eq longest, ← split, dropBytes_byteLength, takeBytes_byteLength] at ih ⊢
      rw [split]
      exact .step split.symm (.emoji joinable emoji r split.symm longest no_boundary) ih
  | case4 pos value joinable c s no_reference no_emoji ignorable ih =>
      rw [scanContinuations, if_neg no_reference, dif_neg no_emoji, if_pos ignorable]
      rw [reference_test] at no_reference
      rw [matchFullyQualifiedEmoji_pos] at no_emoji
      rw [isDefaultIgnorable_iff] at ignorable
      have literal := literal_of (ne_backslash_of_ignorable ignorable) no_reference no_emoji
      refine .step (w := [c]) rfl (.ignorable joinable c s literal ignorable) ?_
      simpa using ih
  | case5 pos value joinable c s no_reference no_emoji visible joiner ih =>
      rw [scanContinuations, if_neg no_reference, dif_neg no_emoji, if_neg visible, if_pos joiner]
      rw [reference_test] at no_reference
      rw [matchFullyQualifiedEmoji_pos] at no_emoji
      rw [isDefaultIgnorable_iff] at visible
      rw [Bool.and_eq_true, Bool.and_eq_true, isApostropheJoiner_iff,
        startsNonCombiningXIDContinuation_iff] at joiner
      obtain ⟨⟨apostrophe, rfl⟩, joins⟩ := joiner
      have hc : c ≠ '\\' := by
        rintro rfl
        simp [Apostrophe] at apostrophe
      have literal := literal_of hc no_reference no_emoji
      refine .step (w := [c]) rfl (.joiner c s literal visible apostrophe joins) ?_
      simpa using ih
  | case6 pos value joinable c s no_reference no_emoji visible no_joiner continues ih =>
      rw [scanContinuations, if_neg no_reference, dif_neg no_emoji, if_neg visible, if_neg no_joiner,
        if_pos continues]
      rw [reference_test] at no_reference
      rw [matchFullyQualifiedEmoji_pos] at no_emoji
      rw [isDefaultIgnorable_iff] at visible
      rw [Bool.and_eq_true, Bool.and_eq_true, isApostropheJoiner_iff,
        startsNonCombiningXIDContinuation_iff] at no_joiner
      rw [isSegmentContinuation_iff] at continues
      have literal := literal_of (ne_backslash_of_unit continues) no_reference no_emoji
      refine .step (w := [c]) rfl (.unit joinable c s _ literal visible
        (fun h => no_joiner ⟨⟨h.2.1, h.1⟩, h.2.2⟩) continues emits_xid_iff) ?_
      simpa using ih
  | case7 pos value joinable c s no_reference no_emoji visible no_joiner no_unit =>
      rw [scanContinuations, if_neg no_reference, dif_neg no_emoji, if_neg visible, if_neg no_joiner,
        if_neg no_unit]
      rw [matchFullyQualifiedEmoji_pos] at no_emoji
      rw [isDefaultIgnorable_iff] at visible
      rw [Bool.and_eq_true, Bool.and_eq_true, isApostropheJoiner_iff,
        startsNonCombiningXIDContinuation_iff] at no_joiner
      rw [isSegmentContinuation_iff] at no_unit
      refine .stop fun _ _ _ h => ?_
      cases h with
      | emoji _ _ _ _ longest => exact no_emoji ⟨_, longest⟩
      | ignorable _ _ _ _ ignorable => exact visible ignorable
      | joiner _ _ _ _ apostrophe joins => exact no_joiner ⟨⟨apostrophe, rfl⟩, joins⟩
      | unit _ _ _ _ _ _ _ continues => exact no_unit continues

theorem scanTagSegment_spec (source : List Char) :
    (∃ w r value joinable, source = w ++ r ∧ scanTagSegment t source = some (byteLength w, value) ∧
        Path (Step t) (.lead source) (.body joinable r) value ∧ Ended t joinable r) ∨
      scanTagSegment t source = none ∧ Barren t (.lead source) := by
  rcases scanStarter_spec (t := t) source 0 with
    ⟨w, r, value, joinable, rfl, result, path⟩ | ⟨result, barren⟩
  · obtain ⟨w', r', more, joinable', rfl, scanned, further, ended⟩ :=
      scanContinuations_spec (t := t) r (byteLength w) value joinable
    refine .inl ⟨w ++ w', r', value ++ more, joinable', by rw [List.append_assoc], ?_,
      path.trans further, ended⟩
    rw [Nat.zero_add] at result
    rw [scanTagSegment, result]
    show some (scanContinuations t (dropBytes (byteLength w) (w ++ (w' ++ r'))) (byteLength w) value
      joinable) = _
    rw [dropBytes_byteLength, scanned, byteLength_append]
  · refine .inr ⟨?_, barren⟩
    rw [scanTagSegment, result]
    rfl

/-! ### Several segments -/

/-- No derivation goes on from here. -/
def Last (t : Tables) (c : Config) : Prop :=
  ∀ c' out, Path (Step t) c c' out → c'.Accepting → c' = c

theorem last_of_ended {joinable : Bool} {s : List Char} (ended : Ended t joinable s)
    (slash : ∀ rest, s = '/' :: rest → Barren t (.lead rest)) : Last t (.body joinable s) := by
  intro c out path accepting
  cases path with
  | refl => rfl
  | head first tail =>
      cases first with
      | continuation continuation => exact absurd continuation (ended _ _ _)
      | slash _ rest => exact absurd accepting (slash rest rfl _ _ tail)

theorem scanSegments_spec (source : List Char) (consumed : Nat) (value : List Char) (joinable : Bool)
    (ended : Ended t joinable source) :
    ∃ w r more joinable', source = w ++ r ∧
      scanSegments t source consumed value = (consumed + byteLength w, value ++ more) ∧
      Path (Step t) (.body joinable source) (.body joinable' r) more ∧
      Last t (.body joinable' r) := by
  induction source, consumed, value using scanSegments.induct t generalizing joinable with
  | case1 consumed value rest none =>
      refine ⟨[], '/' :: rest, [], joinable, rfl, ?_, .refl _, last_of_ended ended ?_⟩
      · rw [scanSegments]
        simp [none]
      · rintro rest' split
        obtain rfl := (List.cons.inj split).2
        rcases scanTagSegment_spec (t := t) rest with ⟨_, _, _, _, _, found, _⟩ | ⟨_, barren⟩
        · rw [none] at found
          exact nomatch found
        · exact barren
  | case2 consumed value rest segmentLength segmentValue found _ ih =>
      rcases scanTagSegment_spec (t := t) rest with
        ⟨w, r, value', joinable', rfl, result, path, ended'⟩ | ⟨missing, _⟩
      · rw [found, Option.some.injEq, Prod.mk.injEq] at result
        obtain ⟨rfl, rfl⟩ := result
        rw [dropBytes_byteLength] at ih
        obtain ⟨w', r', more, joinable'', rfl, scanned, further, last⟩ := ih joinable' ended'
        refine ⟨'/' :: (w ++ w'), r', '/' :: (segmentValue ++ more), joinable'', ?_, ?_, ?_, last⟩
        · simp
        · rw [scanSegments]
          simp only [found, dropBytes_byteLength, scanned, byteLength_cons, byteLength_append,
            show '/'.utf8Size = 1 from rfl, List.append_assoc, List.cons_append]
          congr 1
          omega
        · exact .head (.slash joinable _) (path.trans further)
      · rw [missing] at found
        exact nomatch found
  | case3 source consumed value no_slash =>
      refine ⟨[], source, [], joinable, rfl, ?_, .refl _, last_of_ended ended ?_⟩
      · rw [scanSegments.eq_def]
        split
        · rename_i rest
          exact absurd rfl (no_slash rest)
        · simp
      · rintro rest rfl
        exact absurd rfl (no_slash rest)

/-! ### Identifiers -/

/-- **The scanner reads the longest spelling there is, and nothing where there is none.** -/
theorem scanTagIdentifier_spec (source : List Char) :
    (∃ spelling value, LongestSpelling t source spelling value ∧
        scanTagIdentifier t source = some (byteLength spelling, value)) ∨
      (¬ ∃ rest value, TagSourceSpelling t source rest value) ∧ scanTagIdentifier t source = none := by
  rcases scanTagSegment_spec (t := t) source with
    ⟨w, r, value, joinable, rfl, result, path, ended⟩ | ⟨result, barren⟩
  · obtain ⟨w', r', more, joinable', rfl, scanned, further, last⟩ :=
      scanSegments_spec (t := t) r (byteLength w) value joinable ended
    have whole := path.trans further
    have longest : Longest (Step t) Config.size Config.Accepting _ _ _ :=
      longest_of_last (step_deterministic t) whole trivial last
    refine .inl ⟨w ++ w', value ++ more, ⟨⟨r', by rw [List.append_assoc], ?_⟩, ?_⟩, ?_⟩
    · exact derivation_of_path whole joinable' r' rfl
    · intro rest value' spelling
      obtain ⟨j, other⟩ := spelling.path
      have least : r'.length ≤ rest.length := longest.least _ _ other trivial
      simp only [List.length_append]
      omega
    · rw [scanTagIdentifier, result]
      show some (scanSegments t (dropBytes (byteLength w) (w ++ (w' ++ r'))) (byteLength w) value) = _
      rw [dropBytes_byteLength, scanned, byteLength_append]
  · refine .inr ⟨?_, ?_⟩
    · rintro ⟨rest, value, spelling⟩
      obtain ⟨joinable, path⟩ := spelling.path
      exact barren _ _ path trivial
    · rw [scanTagIdentifier, result]
      rfl

theorem LongestSpelling.unique {source spelling spelling' value value' : List Char}
    (h : LongestSpelling t source spelling value) (h' : LongestSpelling t source spelling' value') :
    spelling = spelling' ∧ value = value' := by
  obtain ⟨rest, split, derived⟩ := h.derived
  obtain ⟨rest', split', derived'⟩ := h'.derived
  have le := h.longest rest' value' derived'
  have ge := h'.longest rest value derived
  have length := congrArg List.length split
  have length' := congrArg List.length split'
  rw [List.length_append] at length length'
  obtain ⟨rfl, rfl⟩ := List.append_inj (split.symm.trans split') (by omega)
  refine ⟨rfl, ?_⟩
  obtain ⟨j, path⟩ := derived.path
  obtain ⟨j', path'⟩ := derived'.path
  have det := step_deterministic t
  rcases path.comparable det path' with ⟨more, further, rfl⟩ | ⟨more, further, rfl⟩
  · rw [(further.eq_nil det rfl).2, List.append_nil]
  · rw [(further.eq_nil det rfl).2, List.append_nil]

end Memos.Markdown

/-
What the lookups of the tag scanner find.

Each lookup is met with the declarative notion it stands for: the binary search with
membership in one of the ranges, the bounded walk over an emoji with the longest table
entry that starts there, and the reader of character references with the three forms of
a reference.  The bounds of the last two lose nothing because no table entry exceeds
them.
-/
import Memos.Markdown.Tag
import Mathlib.Tactic.Linarith

namespace Memos.Markdown

open Utf8

variable {t : Tables}

/-! ### Classes -/

/-- A range further on lies above. -/
theorem CodePointClass.lt_of_index (table : CodePointClass) {i j : Nat} {a b : CodePointRange}
    (ha : table.ranges[i]? = some a) (hb : table.ranges[j]? = some b) (h : i < j) : a.hi < b.lo := by
  obtain ⟨hi, rfl⟩ := Array.getElem?_eq_some_iff.mp ha
  obtain ⟨hj, rfl⟩ := Array.getElem?_eq_some_iff.mp hb
  have apart := List.pairwise_iff_getElem.mp table.ordered i j (by simpa using hi) (by simpa using hj) h
  simpa using apart

theorem CodePointClass.le_of_index (table : CodePointClass) {i : Nat} {a : CodePointRange}
    (ha : table.ranges[i]? = some a) : a.lo ≤ a.hi :=
  table.proper a (by simpa using Array.mem_of_getElem? ha)

/-- The search loses no range that could still hold the code point. -/
theorem containsBetween_iff (table : CodePointClass) (r low high : Nat) (bound : high ≤ table.ranges.size) :
    containsBetween table.ranges r low high = true ↔
      ∃ i range, low ≤ i ∧ i < high ∧ table.ranges[i]? = some range ∧ range.lo ≤ r ∧ r ≤ range.hi := by
  induction low, high using containsBetween.induct table.ranges r with
  | case1 low high inside middle missing =>
      have := Array.getElem?_eq_none_iff.mp missing
      omega
  | case2 low high inside middle current found below ih =>
      have found : table.ranges[low + (high - low) / 2]? = some current := found
      rw [containsBetween, if_pos inside]
      simp only [found, if_pos below]
      refine (ih (by omega)).trans ?_
      constructor
      · rintro ⟨i, range, hlow, hhigh, rest⟩
        exact ⟨i, range, hlow, by omega, rest⟩
      · rintro ⟨i, range, hlow, hhigh, hrange, hlo, hhi⟩
        refine ⟨i, range, hlow, ?_, hrange, hlo, hhi⟩
        by_contra beyond
        rcases Nat.lt_or_eq_of_le (Nat.le_of_not_lt beyond) with later | same
        · have := table.lt_of_index found hrange later
          have := table.le_of_index found
          omega
        · rw [← same, found] at hrange
          obtain rfl := Option.some.inj hrange
          omega
  | case3 low high inside middle current found below above ih =>
      have found : table.ranges[low + (high - low) / 2]? = some current := found
      rw [containsBetween, if_pos inside]
      simp only [found, if_neg below, if_pos above]
      refine (ih bound).trans ?_
      constructor
      · rintro ⟨i, range, hlow, hhigh, rest⟩
        exact ⟨i, range, by omega, hhigh, rest⟩
      · rintro ⟨i, range, hlow, hhigh, hrange, hlo, hhi⟩
        refine ⟨i, range, ?_, hhigh, hrange, hlo, hhi⟩
        by_contra before
        rcases Nat.lt_or_eq_of_le (Nat.lt_succ_iff.mp (Nat.lt_of_not_le before)) with earlier | same
        · have := table.lt_of_index hrange found earlier
          have := table.le_of_index found
          omega
        · rw [same, found] at hrange
          obtain rfl := Option.some.inj hrange
          omega
  | case4 low high inside middle current found below above =>
      have found : table.ranges[low + (high - low) / 2]? = some current := found
      rw [containsBetween, if_pos inside]
      simp only [found, if_neg below, if_neg above, true_iff]
      exact ⟨middle, current, by omega, by omega, found, by omega, by omega⟩
  | case5 low high outside =>
      rw [containsBetween, if_neg outside]
      simp only [Bool.false_eq_true, false_iff, not_exists]
      rintro i range ⟨hlow, hhigh, -⟩
      omega

theorem containsCodePoint_iff (table : CodePointClass) (r : Char) :
    containsCodePoint table.ranges r = true ↔ table.Holds r := by
  rw [containsCodePoint, containsBetween_iff table _ _ _ (Nat.le_refl _), CodePointClass.Holds]
  constructor
  · rintro ⟨i, range, -, -, hrange, inside⟩
    exact ⟨range, by simpa using Array.mem_of_getElem? hrange, inside⟩
  · rintro ⟨range, mem, inside⟩
    obtain ⟨i, hi, hrange⟩ := List.getElem_of_mem mem
    refine ⟨i, range, Nat.zero_le _, by simpa using hi, ?_, inside⟩
    rw [Array.getElem?_eq_some_iff]
    exact ⟨by simpa using hi, by simpa using hrange⟩

@[simp] theorem isXIDContinue_iff {c : Char} : isXIDContinue t c = true ↔ XIDContinue t c :=
  containsCodePoint_iff _ _

@[simp] theorem isDefaultIgnorable_iff {c : Char} :
    isDefaultIgnorable t c = true ↔ DefaultIgnorable t c :=
  containsCodePoint_iff _ _

@[simp] theorem isCombiningMark_iff {c : Char} : isCombiningMark t c = true ↔ CombiningMark t c :=
  containsCodePoint_iff _ _

/-! ### Emoji -/

theorem eq_of_byteLength_eq {w w' s : List Char} (h : w <+: s) (h' : w' <+: s)
    (same : byteLength w = byteLength w') : w = w' := by
  obtain ⟨r, rfl⟩ := h
  obtain ⟨r', hr⟩ := h'
  rw [← takeBytes_byteLength w r, same, ← hr, takeBytes_byteLength]

/-- The entries of the table that the walk has still before it. -/
def EntryAfter (t : Tables) (before rest w : List Char) : Prop :=
  w <+: rest ∧ w ≠ [] ∧ t.emoji17FullyQualified (before ++ w) = true

theorem matchEmoji_spec {limit : Nat} (before rest : List Char) (longest : Nat)
    (hlimit : limit = min (byteLength (before ++ rest)) maxEmoji17SequenceBytes) :
    (∃ w, EntryAfter t before rest w ∧ (∀ w', EntryAfter t before rest w' → w'.length ≤ w.length) ∧
        matchEmoji t limit before rest longest = byteLength (before ++ w)) ∨
      (¬ ∃ w, EntryAfter t before rest w) ∧ matchEmoji t limit before rest longest = longest := by
  induction rest generalizing before longest with
  | nil =>
      refine .inr ⟨?_, rfl⟩
      rintro ⟨w, inside, some, -⟩
      exact some (List.prefix_nil.mp inside)
  | cons r rest ih =>
      have advance : ∀ w, EntryAfter t before (r :: rest) w ↔
          ∃ w', w = r :: w' ∧ w' <+: rest ∧ t.emoji17FullyQualified (before ++ [r] ++ w') = true := by
        intro w
        constructor
        · rintro ⟨inside, some, entry⟩
          obtain ⟨c, w', rfl⟩ := List.exists_cons_of_ne_nil some
          obtain ⟨rfl, tail⟩ := List.cons_prefix_cons.mp inside
          exact ⟨w', rfl, tail, by simpa using entry⟩
        · rintro ⟨w', rfl, inside, entry⟩
          exact ⟨List.cons_prefix_cons.mpr ⟨rfl, inside⟩, by simp, by simpa using entry⟩
      have size : ∀ w, EntryAfter t before (r :: rest) w →
          byteLength before + r.utf8Size ≤ maxEmoji17SequenceBytes := by
        intro w entry
        obtain ⟨w', -, -, entry⟩ := (advance w).mp entry
        have := (t.emoji_size _ entry).2
        simp only [byteLength_append, byteLength_cons, byteLength_nil] at this
        omega
      have positive := r.utf8Size_pos
      rw [byteLength_append, byteLength_cons] at hlimit
      rw [matchEmoji]
      split
      · dsimp only
        rw [byteLength_append, byteLength_cons, byteLength_nil]
        split
        · -- The walk stops at the limit, and it is the table's bound that stops it.
          refine .inr ⟨?_, rfl⟩
          rintro ⟨w, entry⟩
          have := size w entry
          omega
        · have step := ih (before ++ [r])
            (if t.emoji17FullyQualified (before ++ [r]) then byteLength before + (r.utf8Size + 0)
              else longest)
            (by
              rw [hlimit]
              simp)
          rcases step with ⟨w, entry, most, result⟩ | ⟨none, result⟩
          · left
            refine ⟨r :: w, (advance _).mpr ⟨w, rfl, entry.1, entry.2.2⟩, ?_, ?_⟩
            · intro w' entry'
              obtain ⟨v, rfl, inside, entry'⟩ := (advance w').mp entry'
              by_cases more : v = []
              · simp [more]
              · exact Nat.succ_le_succ (most v ⟨inside, more, entry'⟩)
            · rw [result]
              simp
          · rw [result]
            by_cases here : t.emoji17FullyQualified (before ++ [r]) = true
            · left
              refine ⟨[r], (advance _).mpr ⟨[], rfl, List.nil_prefix, by simpa using here⟩, ?_, ?_⟩
              · intro w' entry'
                obtain ⟨v, rfl, inside, entry'⟩ := (advance w').mp entry'
                have last : v = [] := by
                  by_contra more
                  exact none ⟨v, inside, more, entry'⟩
                simp [last]
              · simp [here]
            · right
              refine ⟨?_, by simp [here]⟩
              rintro ⟨w', entry'⟩
              obtain ⟨v, rfl, inside, entry'⟩ := (advance w').mp entry'
              by_cases more : v = []
              · rw [more, List.append_nil] at entry'
                exact here entry'
              · exact none ⟨v, inside, more, entry'⟩
      · refine .inr ⟨?_, rfl⟩
        rintro ⟨w, entry⟩
        have := size w entry
        omega

theorem matchFullyQualifiedEmoji_spec (source : List Char) :
    (∃ emoji, FullyQualifiedEmoji t source emoji ∧
        matchFullyQualifiedEmoji t source = byteLength emoji) ∨
      (¬ ∃ emoji, FullyQualifiedEmoji t source emoji) ∧ matchFullyQualifiedEmoji t source = 0 := by
  have entry : ∀ w, w <+: source → t.emoji17FullyQualified w = true → EntryAfter t [] source w :=
    fun w inside known => ⟨inside, (t.emoji_size w known).1, known⟩
  rcases matchEmoji_spec (t := t) [] source 0 rfl with ⟨w, found, most, result⟩ | ⟨none, result⟩
  · refine .inl ⟨w, ⟨found.1, found.2.2, fun w' inside known => ?_⟩, result⟩
    exact most w' (entry w' inside known)
  · refine .inr ⟨?_, result⟩
    rintro ⟨w, inside, known, -⟩
    exact none ⟨w, entry w inside known⟩

theorem FullyQualifiedEmoji.unique {source emoji emoji' : List Char}
    (h : FullyQualifiedEmoji t source emoji) (h' : FullyQualifiedEmoji t source emoji') :
    emoji = emoji' := by
  have le := h'.2.2 emoji h.1 h.2.1
  have ge := h.2.2 emoji' h'.1 h'.2.1
  exact (List.prefix_of_prefix_length_le h.1 h'.1 le).eq_of_length (Nat.le_antisymm le ge)

theorem FullyQualifiedEmoji.ne_nil {source emoji : List Char} (h : FullyQualifiedEmoji t source emoji) :
    emoji ≠ [] := (t.emoji_size emoji h.2.1).1

theorem matchFullyQualifiedEmoji_eq {source emoji : List Char}
    (h : FullyQualifiedEmoji t source emoji) :
    matchFullyQualifiedEmoji t source = byteLength emoji := by
  rcases matchFullyQualifiedEmoji_spec (t := t) source with ⟨found, hfound, result⟩ | ⟨none, -⟩
  · rw [result, h.unique hfound]
  · exact absurd ⟨emoji, h⟩ none

theorem matchFullyQualifiedEmoji_pos {source : List Char} :
    0 < matchFullyQualifiedEmoji t source ↔ ∃ emoji, FullyQualifiedEmoji t source emoji := by
  rcases matchFullyQualifiedEmoji_spec (t := t) source with ⟨found, hfound, result⟩ | ⟨none, result⟩
  · rw [result]
    exact ⟨fun _ => ⟨found, hfound⟩, fun _ => byteLength_pos hfound.ne_nil⟩
  · rw [result]
    exact ⟨fun h => absurd h (Nat.lt_irrefl 0), fun h => absurd h none⟩

/-! ### Character references -/

theorem isDigit_ascii {c : Char} (h : isDigit c = true) : c.utf8Size = 1 := by
  simp only [isDigit, Bool.and_eq_true, decide_eq_true_eq] at h
  exact utf8Size_of_le (UInt32.le_trans h.2 (by decide))

theorem isHexDigit_ascii {c : Char} (h : isHexDigit c = true) : c.utf8Size = 1 := by
  simp only [isHexDigit, Bool.or_eq_true, Bool.and_eq_true, decide_eq_true_eq] at h
  rcases h with (digit | lower) | upper
  · exact utf8Size_of_le (UInt32.le_trans digit.2 (by decide))
  · exact utf8Size_of_le (UInt32.le_trans lower.2 (by decide))
  · exact utf8Size_of_le (UInt32.le_trans upper.2 (by decide))

theorem scanWhile_append {p : Char → Bool} {max : Nat} {w rest : List Char} {c : Char}
    (all : ∀ c ∈ w, p c = true) (few : w.length ≤ max) (stop : p c = false) :
    scanWhile p max (w ++ c :: rest) = w.length := by
  induction w generalizing max with
  | nil =>
      cases max with
      | zero => rfl
      | succ max => simp [scanWhile, stop]
  | cons a w ih =>
      cases max with
      | zero => exact absurd few (by simp)
      | succ max =>
          rw [List.cons_append, scanWhile, if_pos (all a (by simp)),
            ih (fun c hc => all c (by simp [hc])) (Nat.le_of_succ_le_succ few), List.length_cons]

theorem scanWhile_spec (p : Char → Bool) (max : Nat) (s : List Char) :
    ∃ w rest, s = w ++ rest ∧ scanWhile p max s = w.length ∧ w.length ≤ max ∧ ∀ c ∈ w, p c = true := by
  induction s generalizing max with
  | nil => exact ⟨[], [], rfl, by cases max <;> rfl, Nat.zero_le _, by simp⟩
  | cons a s ih =>
      cases max with
      | zero => exact ⟨[], a :: s, rfl, rfl, Nat.le_refl _, by simp⟩
      | succ max =>
          rw [scanWhile]
          split
          · rename_i here
            obtain ⟨w, rest, rfl, length, few, all⟩ := ih max
            refine ⟨a :: w, rest, rfl, by rw [length, List.length_cons], Nat.succ_le_succ few, ?_⟩
            intro c hc
            rcases List.mem_cons.mp hc with rfl | hc
            · exact here
            · exact all c hc
          · exact ⟨[], a :: s, rfl, rfl, Nat.zero_le _, by simp⟩

/-- What a loop over digits or letters that ends before a semicolon has read. -/
theorem of_semicolon {p : Char → Bool} {max : Nat} {s : List Char}
    (h : (s.drop (scanWhile p max s)).head? = some ';') :
    ∃ w rest, s = w ++ ';' :: rest ∧ scanWhile p max s = w.length ∧ w.length ≤ max ∧
      ∀ c ∈ w, p c = true := by
  obtain ⟨w, rest, rfl, length, few, all⟩ := scanWhile_spec p max s
  rw [length, List.drop_left] at h
  obtain ⟨rest, rfl⟩ := List.head?_eq_some_iff.mp h
  exact ⟨w, rest, rfl, length, few, all⟩

theorem numericReferenceLength_append {start max : Nat} {p : Char → Bool} {w rest : List Char}
    (all : ∀ c ∈ w, p c = true) (some : w ≠ []) (few : w.length ≤ max) (stop : p ';' = false) :
    numericReferenceLength start max p (w ++ ';' :: rest) = start + w.length + 1 := by
  rw [numericReferenceLength, scanWhile_append all few stop]
  simp [List.length_pos_iff.mpr some]

theorem of_numericReferenceLength {start max : Nat} {p : Char → Bool} {s : List Char}
    (h : 0 < numericReferenceLength start max p s) :
    ∃ w rest, s = w ++ ';' :: rest ∧ w ≠ [] ∧ w.length ≤ max ∧ ∀ c ∈ w, p c = true := by
  rw [numericReferenceLength] at h
  split at h
  · rename_i found
    simp only [Bool.and_eq_true, decide_eq_true_eq] at found
    obtain ⟨w, rest, rfl, length, few, all⟩ := of_semicolon found.2
    exact ⟨w, rest, rfl, List.length_pos_iff.mp (length ▸ found.1), few, all⟩
  · exact absurd h (Nat.lt_irrefl 0)

/-- A reference has at least the ampersand, one character and the semicolon. -/
theorem CharacterReference.three_le {reference : List Char} (h : CharacterReference t reference) :
    3 ≤ byteLength reference := by
  have small : ∀ c : Char, 1 ≤ c.utf8Size := fun c => c.utf8Size_pos
  have positive : ∀ w : List Char, w ≠ [] → 1 ≤ byteLength w := fun w some => byteLength_pos some
  cases h with
  | decimal digits some few all | hexadecimal x hx digits some few all =>
      have := positive digits some
      simp only [byteLength_cons, byteLength_append, byteLength_nil]
      have := small '&'
      have := small ';'
      omega
  | named name known =>
      have := positive name (t.entity_name name known).1
      simp only [byteLength_cons, byteLength_append, byteLength_nil]
      have := small '&'
      have := small ';'
      omega

theorem characterReferenceLength_append {reference : List Char}
    (h : CharacterReference t reference) (rest : List Char) :
    characterReferenceLength t (reference ++ rest) = byteLength reference := by
  have long : ¬ byteLength (reference ++ rest) < 3 := by
    have := h.three_le
    rw [byteLength_append]
    omega
  rw [characterReferenceLength.eq_def, if_neg long]
  cases h with
  | decimal digits some few all =>
      have size := byteLength_of_ascii fun c hc => isDigit_ascii (all c hc)
      obtain ⟨d, ds, rfl⟩ := List.exists_cons_of_ne_nil some
      have first := all d (by simp)
      have read : numericReferenceLength 2 7 isDigit (d :: ds ++ ';' :: rest) = _ :=
        numericReferenceLength_append all some few (by decide)
      simp only [List.cons_append, List.append_assoc, List.nil_append] at read ⊢
      split
      · rename_i same
        rw [(List.cons.inj same).1] at first
        exact absurd first (by decide)
      · rename_i same
        rw [(List.cons.inj same).1] at first
        exact absurd first (by decide)
      · rw [read]
        simp only [byteLength_cons, byteLength_append, byteLength_nil, List.length_cons] at size ⊢
        rw [show '&'.utf8Size = 1 from rfl, show '#'.utf8Size = 1 from rfl,
          show ';'.utf8Size = 1 from rfl]
        omega
  | hexadecimal x hx digits some few all =>
      have size := byteLength_of_ascii fun c hc => isHexDigit_ascii (all c hc)
      have read : numericReferenceLength 3 6 isHexDigit (digits ++ ';' :: rest) = _ :=
        numericReferenceLength_append all some few (by decide)
      rcases hx with rfl | rfl
      · simp only [List.cons_append, List.append_assoc, List.nil_append, read, byteLength_cons,
          byteLength_append, byteLength_nil, size]
        rw [show '&'.utf8Size = 1 from rfl, show '#'.utf8Size = 1 from rfl,
          show 'x'.utf8Size = 1 from rfl, show ';'.utf8Size = 1 from rfl]
        omega
      · simp only [List.cons_append, List.append_assoc, List.nil_append, read, byteLength_cons,
          byteLength_append, byteLength_nil, size]
        rw [show '&'.utf8Size = 1 from rfl, show '#'.utf8Size = 1 from rfl,
          show 'X'.utf8Size = 1 from rfl, show ';'.utf8Size = 1 from rfl]
        omega
  | named name known =>
      obtain ⟨some, few, all⟩ := t.entity_name name known
      have size := byteLength_of_ascii fun c hc => t.alphaNumeric_ascii c (all c hc)
      have read : scanWhile t.isAlphaNumeric 32 (name ++ ';' :: rest) = name.length :=
        scanWhile_append all few t.alphaNumeric_delimiter.2
      simp only [List.cons_append, List.append_assoc, List.nil_append]
      split
      · rename_i digits same
        obtain ⟨c, cs, rfl⟩ := List.exists_cons_of_ne_nil some
        have first := all c (by simp)
        rw [List.cons_append] at same
        rw [(List.cons.inj (List.cons.inj same).2).1, t.alphaNumeric_delimiter.1] at first
        exact nomatch first
      · rename_i text _ same
        obtain rfl : text = name ++ ';' :: rest := by simpa using same.symm
        rw [read]
        simp only [List.length_eq_zero_iff, some, decide_false, List.drop_left, List.head?_cons,
          List.take_left, known, Bool.false_or, ne_eq, not_true_eq_false, Bool.false_eq_true,
          if_false, if_true, byteLength_cons, byteLength_append, byteLength_nil, size]
        rw [show '&'.utf8Size = 1 from rfl, show ';'.utf8Size = 1 from rfl]
        omega
      · rename_i other
        exact absurd rfl (other _)

theorem of_characterReferenceLength {source : List Char}
    (h : 0 < characterReferenceLength t source) : ∃ reference, ReferenceAt t source reference := by
  rw [characterReferenceLength.eq_def] at h
  split at h
  · exact absurd h (Nat.lt_irrefl 0)
  split at h
  · split at h
    · obtain ⟨w, rest, rfl, some, few, all⟩ := of_numericReferenceLength h
      exact ⟨_, ⟨rest, by simp⟩, .hexadecimal 'x' (.inl rfl) w some few all⟩
    · obtain ⟨w, rest, rfl, some, few, all⟩ := of_numericReferenceLength h
      exact ⟨_, ⟨rest, by simp⟩, .hexadecimal 'X' (.inr rfl) w some few all⟩
    · obtain ⟨w, rest, rfl, some, few, all⟩ := of_numericReferenceLength h
      exact ⟨_, ⟨rest, by simp⟩, .decimal w some few all⟩
  · dsimp only at h
    split at h
    · exact absurd h (Nat.lt_irrefl 0)
    rename_i ended
    split at h
    · rename_i known
      simp only [Bool.or_eq_true, decide_eq_true_eq, not_or, Decidable.not_not] at ended
      obtain ⟨w, rest, rfl, length, -, -⟩ := of_semicolon ended.2
      rw [length, List.take_left] at known
      exact ⟨_, ⟨rest, by simp⟩, .named w known⟩
    · exact absurd h (Nat.lt_irrefl 0)
  · exact absurd h (Nat.lt_irrefl 0)

theorem characterReferenceLength_eq {source reference : List Char}
    (h : ReferenceAt t source reference) :
    characterReferenceLength t source = byteLength reference := by
  obtain ⟨⟨rest, rfl⟩, reference⟩ := h
  exact characterReferenceLength_append reference rest

theorem characterReferenceLength_pos {source : List Char} :
    0 < characterReferenceLength t source ↔ ∃ reference, ReferenceAt t source reference := by
  constructor
  · exact of_characterReferenceLength
  · rintro ⟨reference, h⟩
    have := h.2.three_le
    rw [characterReferenceLength_eq h]
    omega

theorem ReferenceAt.unique {source reference reference' : List Char}
    (h : ReferenceAt t source reference) (h' : ReferenceAt t source reference') :
    reference = reference' := by
  refine eq_of_byteLength_eq h.1 h'.1 ?_
  rw [← characterReferenceLength_eq h, characterReferenceLength_eq h']

end Memos.Markdown

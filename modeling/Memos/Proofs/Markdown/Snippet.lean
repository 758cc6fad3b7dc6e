/-
What a snippet shows of a memo.

The walk may stop before the end, and then it has collected the beginning of the text, more
than twice the wanted length of bytes.  These may be fewer code points than the wanted
length, and then the text is taken for the whole: what comes after it is left out, and no
ellipsis tells.
-/
import Memos.Markdown.Snippet
import Mathlib.Data.List.DropRight

namespace Memos.Markdown.Snippet

open Api (isSpace trimSpace)
open TreeWalk
open Utf8

/-! ### What a snippet should be -/

def BreakAt (text : List Char) (i : Nat) : Prop := ∃ c, text[i]? = some c ∧ isBreak c = true

/-- What is shown of a text that is too long: what comes before the last break, or as much as
there is room for when there is none. -/
structure Shown (maxLength : Int) (text shown : List Char) : Prop where
  start : shown <+: text
  short : (shown.length : Int) ≤ maxLength
  word : (∃ i : Nat, 0 < i ∧ (i : Int) < maxLength ∧ BreakAt text i) →
    0 < shown.length ∧ BreakAt text shown.length
  last : ∀ i : Nat, shown.length < i → (i : Int) < maxLength → ¬BreakAt text i
  full : (¬∃ i : Nat, 0 < i ∧ (i : Int) < maxLength ∧ BreakAt text i) →
    (shown.length : Int) = maxLength

/-- The whole text when there is room for it, and a part with an ellipsis otherwise. -/
def IsSnippet (maxLength : Int) (text snippet : List Char) : Prop :=
  ((text.length : Int) ≤ maxLength ∧ snippet = trimSpace text) ∨
    maxLength < text.length ∧ ∃ shown, Shown maxLength text shown ∧
      snippet = trimSpace (shown ++ ellipsis)

/-! ### Cutting -/

theorem lastBreak_none {s : List Char} (h : lastBreak s = none) (i : Nat) : ¬BreakAt s i := by
  induction s generalizing i with
  | nil =>
      rintro ⟨c, there, -⟩
      cases there
  | cons c s ih =>
      rw [lastBreak] at h
      cases later : lastBreak s with
      | some j =>
          rw [later] at h
          cases h
      | none =>
          rw [later] at h
          dsimp only at h
          rintro ⟨d, there, breaks⟩
          cases i with
          | zero =>
              rw [List.getElem?_cons_zero, Option.some.injEq] at there
              rw [there, if_pos breaks] at h
              cases h
          | succ i =>
              rw [List.getElem?_cons_succ] at there
              exact ih later i ⟨d, there, breaks⟩

theorem lastBreak_some {s : List Char} {i : Nat} (h : lastBreak s = some i) :
    BreakAt s i ∧ ∀ j, i < j → ¬BreakAt s j := by
  induction s generalizing i with
  | nil => cases h
  | cons c s ih =>
      rw [lastBreak] at h
      cases later : lastBreak s with
      | some k =>
          rw [later] at h
          obtain rfl := Option.some.inj h
          obtain ⟨⟨d, there, breaks⟩, none⟩ := ih later
          refine ⟨⟨d, there, breaks⟩, fun j less => ?_⟩
          obtain ⟨j, rfl⟩ := Nat.exists_eq_succ_of_ne_zero (Nat.ne_zero_of_lt less)
          rintro ⟨e, there, breaks⟩
          exact none j (by omega) ⟨e, there, breaks⟩
      | none =>
          rw [later] at h
          dsimp only at h
          by_cases breaks : isBreak c = true
          · rw [if_pos breaks, Option.some.injEq] at h
            subst h
            refine ⟨⟨c, rfl, breaks⟩, fun j less => ?_⟩
            obtain ⟨j, rfl⟩ := Nat.exists_eq_succ_of_ne_zero (Nat.ne_zero_of_lt less)
            rintro ⟨e, there, breaks⟩
            exact lastBreak_none later j ⟨e, there, breaks⟩
          · rw [if_neg breaks] at h
            cases h

theorem breakAt_take {text : List Char} {m i : Nat} :
    BreakAt (text.take m) i ↔ i < m ∧ BreakAt text i := by
  unfold BreakAt
  constructor
  · rintro ⟨c, there, breaks⟩
    rw [List.getElem?_take] at there
    split at there
    · rename_i less
      exact ⟨less, c, there, breaks⟩
    · cases there
  · rintro ⟨less, c, there, breaks⟩
    exact ⟨c, by rw [List.getElem?_take, if_pos less]; exact there, breaks⟩

/-- What is cut at a word of the first code points is what should be shown. -/
theorem cutAtWord_shown {text : List Char} {m : Nat} (long : m < text.length) :
    Shown m text (cutAtWord (text.take m)) := by
  have size : (text.take m).length = m := List.length_take_of_le long.le
  have whole : (∀ i, 0 < i → i < m → ¬BreakAt text i) → Shown m text (text.take m) := by
    intro none
    refine ⟨List.take_prefix m text, by omega, ?_, ?_, fun _ => by rw [size]⟩
    · rintro ⟨i, pos, less, there⟩
      exact absurd there (none i pos (by omega))
    · intro i more less
      rw [size] at more
      omega
  unfold cutAtWord
  cases found : lastBreak (text.take m) with
  | none =>
      exact whole fun i _ less there => lastBreak_none found i (breakAt_take.mpr ⟨less, there⟩)
  | some lastSpace =>
      obtain ⟨there, none⟩ := lastBreak_some found
      obtain ⟨less, there⟩ := breakAt_take.mp there
      have later : ∀ i, lastSpace < i → i < m → ¬BreakAt text i := fun i more less there =>
        none i more (breakAt_take.mpr ⟨less, there⟩)
      dsimp only
      by_cases pos : 0 < lastSpace
      · have cut : ((text.take m).take lastSpace).length = lastSpace :=
          List.length_take_of_le (by omega)
        rw [if_pos pos]
        constructor
        · exact (List.take_prefix lastSpace _).trans (List.take_prefix m text)
        · rw [cut]
          omega
        · intro _
          rw [cut]
          exact ⟨pos, there⟩
        · intro i more less
          rw [cut] at more
          exact later i more (by omega)
        · intro never
          exact absurd ⟨lastSpace, pos, by omega, there⟩ never
      · rw [if_neg pos]
        exact whole fun i more less => later i (by omega) less

/-! ### Trimming -/

theorem dropWhile_append_of_not_all {p : Char → Bool} {s : List Char} (rest : List Char)
    (some : ¬∀ c ∈ s, p c = true) : (s ++ rest).dropWhile p = s.dropWhile p ++ rest := by
  rw [List.dropWhile_append, if_neg]
  rw [List.isEmpty_iff, List.dropWhile_eq_nil_iff]
  exact some

theorem trimSpace_append_iff (s rest : List Char) :
    trimSpace (s ++ rest) = trimSpace s ↔ ∀ c ∈ rest, isSpace c = true := by
  have trim : ∀ s : List Char, trimSpace s = (s.dropWhile isSpace).rdropWhile isSpace := fun _ => rfl
  have size : ∀ a b : List Char, (¬∀ c ∈ b, isSpace c = true) →
      (a ++ b).rdropWhile isSpace = a ++ b.rdropWhile isSpace := by
    intro a b some
    rw [List.rdropWhile, List.reverse_append, dropWhile_append_of_not_all, List.reverse_append,
      List.reverse_reverse, List.rdropWhile]
    exact fun all => some fun c hc => all c (List.mem_reverse.mpr hc)
  constructor
  · intro same
    by_contra some
    have kept : 0 < (rest.rdropWhile isSpace).length := by
      rw [List.length_pos_iff]
      exact fun none => some (List.rdropWhile_eq_nil_iff.mp none)
    rw [trim, trim] at same
    by_cases blank : ∀ c ∈ s, isSpace c = true
    · rw [List.dropWhile_append_of_pos blank, List.dropWhile_eq_nil_iff.mpr blank,
        List.rdropWhile_nil, List.rdropWhile_eq_nil_iff] at same
      refine some fun c hc => ?_
      rw [← List.takeWhile_append_dropWhile (p := isSpace) (l := rest)] at hc
      exact (List.mem_append.mp hc).elim List.mem_takeWhile_imp (same c)
    · rw [dropWhile_append_of_not_all rest blank, size _ _ some] at same
      have less := (List.rdropWhile_prefix isSpace (s.dropWhile isSpace)).length_le
      rw [← same, List.length_append] at less
      omega
  · intro all
    rw [trim, trim]
    by_cases blank : ∀ c ∈ s, isSpace c = true
    · have both : ∀ c ∈ s ++ rest, isSpace c = true := fun c hc =>
        (List.mem_append.mp hc).elim (blank c) (all c)
      rw [List.dropWhile_eq_nil_iff.mpr both, List.dropWhile_eq_nil_iff.mpr blank]
    · rw [dropWhile_append_of_not_all rest blank, List.rdropWhile, List.reverse_append,
        List.dropWhile_append_of_pos fun c hc => all c (List.mem_reverse.mp hc), List.rdropWhile]

/-! ### The walk -/

variable {full : Nat → Bool}

def textOf (done : List (Event Node)) : List Char :=
  (after (visit fun _ => false) .start done).buf

def visits (root : RoseTree Node) : List (Event Node) :=
  events (fun n => n.isCodeBlock || n.skipsChildren) root

theorem visit_fst (full : Nat → Bool) (s : State) (e : Event Node) :
    (visit full s e).1 = (visit (fun _ => false) s e).1 := by
  unfold visit
  split
  · split
    · rfl
    · split
      · rfl
      · split
        · rfl
        · rfl
  · rfl

theorem visit_skips (full : Nat → Bool) (s : State) (n : Node) :
    (visit full s ⟨n, true⟩).2 = .skipChildren ↔ (n.isCodeBlock || n.skipsChildren) = true := by
  unfold visit
  rw [if_pos rfl, Bool.or_eq_true]
  by_cases code : n.isCodeBlock = true
  · rw [if_pos code]
    exact iff_of_true rfl (.inl code)
  · rw [if_neg code, or_iff_right code]
    by_cases skips : n.skipsChildren = true
    · rw [if_pos skips]
      exact iff_of_true rfl skips
    · rw [if_neg skips]
      refine iff_of_false ?_ skips
      split
      · exact fun skipped => WalkStatus.noConfusion skipped
      · exact fun skipped => WalkStatus.noConfusion skipped

theorem after_visit (full : Nat → Bool) (s : State) (done : List (Event Node)) :
    after (visit full) s done = after (visit fun _ => false) s done := by
  induction done generalizing s with
  | nil => rfl
  | cons e done ih =>
      rw [after, List.foldl_cons, visit_fst full]
      exact ih _

theorem buf_visit (s : State) (e : Event Node) :
    ∃ more, (visit (fun _ => false) s e).1.buf = s.buf ++ more := by
  unfold visit
  split
  · split
    · exact ⟨[], (List.append_nil _).symm⟩
    · split
      · exact ⟨_, List.append_assoc _ _ _⟩
      · exact ⟨_, List.append_assoc _ _ _⟩
  · exact ⟨[], (List.append_nil _).symm⟩

theorem buf_after (s : State) (done : List (Event Node)) :
    ∃ more, (after (visit fun _ => false) s done).buf = s.buf ++ more := by
  induction done generalizing s with
  | nil => exact ⟨[], (List.append_nil _).symm⟩
  | cons e done ih =>
      obtain ⟨first, entered⟩ := buf_visit s e
      obtain ⟨more, rest⟩ := ih (visit (fun _ => false) s e).1
      refine ⟨first ++ more, ?_⟩
      rw [entered, List.append_assoc] at rest
      exact rest

theorem textOf_append (done rest : List (Event Node)) :
    ∃ more, textOf (done ++ rest) = textOf done ++ more := by
  unfold textOf
  rw [after, List.foldl_append]
  exact buf_after _ rest

theorem never_stops (s : State) (done : List (Event Node)) :
    ¬StopsAfter (visit fun _ => false) s done := by
  intro stops
  induction stops with
  | last ended =>
      unfold visit at ended
      split at ended
      · split at ended
        · cases ended
        · split at ended
          · cases ended
          · cases ended
      · cases ended
  | cons _ _ ih => exact ih

theorem plainText_eq (root : RoseTree Node) : plainText root = textOf (visits root) := by
  unfold plainText
  rw [walk_eq_run (visit_skips _)]
  rcases run_spec (visit fun _ => false) .start (visits root) with
    ⟨done, -, -, stops, -⟩ | ⟨-, ran⟩
  · exact absurd stops (never_stops _ done)
  · exact congrArg (fun r => r.1.buf) ran

/-! ### The snippet -/

/-- The nodes up to the first one, of those whose children are visited, with which more than
twice the wanted length of bytes is collected. -/
def StopsAt (maxLength : Int64) (done : List (Event Node)) : Prop :=
  StopsAfter (visit fun bytes => decide ((maxLength * 2).toInt < bytes)) .start done

/-- The stop loses nothing: the text so far is too long anyway, or all that follows is white
space, or the text so far happens to end with an ellipsis just where the whole is cut. -/
def Harmless (maxLength : Int) (text collected : List Char) : Prop :=
  maxLength < collected.length ∨
    ((text.length : Int) ≤ maxLength ∧
      ∃ blank, text = collected ++ blank ∧ ∀ c ∈ blank, isSpace c = true) ∨
    maxLength < text.length ∧ ∃ shown, Shown maxLength text shown ∧
      trimSpace collected = trimSpace (shown ++ ellipsis)

theorem GenerateSnippet_of_collected {root : RoseTree Node} {maxLength : Int64} {collected : List Char}
    (positive : 0 ≤ maxLength.toInt)
    (walked : (walk (visit fun bytes => decide ((maxLength * 2).toInt < bytes)) .start root).1.buf =
      collected) :
    GenerateSnippet root maxLength = some (trimSpace
      (if (collected.length : Int) ≤ maxLength.toInt then collected
        else cutAtWord (collected.take maxLength.toInt.toNat) ++ ellipsis)) := by
  unfold GenerateSnippet truncateAtWord
  dsimp only
  rw [walked]
  have bytes : collected.length ≤ byteLength collected := length_le_byteLength collected
  by_cases long : (collected.length : Int) ≤ maxLength.toInt
  · rw [if_pos long, if_pos long]
    split
    · rfl
    · rfl
  · have past : maxLength.toInt < byteLength collected := by omega
    rw [if_neg long, if_neg long, if_pos past, if_neg (Int.not_lt.mpr positive)]
    rfl

/-- What is made of the collected text is the snippet exactly when the stop is harmless. -/
theorem isSnippet_iff {maxLength : Int} {text collected : List Char} (positive : 0 ≤ maxLength)
    (start : collected <+: text) :
    IsSnippet maxLength text (trimSpace
      (if (collected.length : Int) ≤ maxLength then collected
        else cutAtWord (collected.take maxLength.toNat) ++ ellipsis)) ↔
    Harmless maxLength text collected := by
  obtain ⟨more, rfl⟩ := start
  have size : (collected ++ more).length = collected.length + more.length := List.length_append
  by_cases long : (collected.length : Int) ≤ maxLength
  · rw [if_pos long, Harmless, or_iff_right (Int.not_lt.mpr long), IsSnippet]
    refine or_congr (and_congr_right fun _ => ?_) Iff.rfl
    rw [eq_comm, trimSpace_append_iff]
    constructor
    · intro blank
      exact ⟨more, rfl, blank⟩
    · rintro ⟨blank, same, all⟩
      rw [List.append_cancel_left same]
      exact all
  · rw [if_neg long]
    refine iff_of_true (.inr ⟨by omega, _, ?_, rfl⟩) (.inl (Int.not_le.mp long))
    have room : maxLength.toNat ≤ collected.length := by omega
    have shown : Shown maxLength.toNat (collected ++ more) _ := cutAtWord_shown (by omega)
    rw [List.take_append_of_le_length room, Int.toNat_of_nonneg positive] at shown
    exact shown

/-- **A snippet shows the whole text, or its beginning and an ellipsis, exactly when the length
is not negative and the walk loses nothing by stopping where it does.** -/
theorem GenerateSnippet_iff (root : RoseTree Node) (maxLength : Int64) :
    (∃ snippet, GenerateSnippet root maxLength = some snippet ∧
      IsSnippet maxLength.toInt (plainText root) snippet) ↔
    0 ≤ maxLength.toInt ∧ ∀ done rest, visits root = done ++ rest → StopsAt maxLength done →
      Harmless maxLength.toInt (plainText root) (textOf done) := by
  by_cases positive : 0 ≤ maxLength.toInt
  · rw [and_iff_right positive]
    have walked : walk (visit fun bytes => decide ((maxLength * 2).toInt < bytes)) .start root =
        run (visit fun bytes => decide ((maxLength * 2).toInt < bytes)) .start (visits root) :=
      walk_eq_run (visit_skips _) .start root
    have made : ∀ collected, (walk (visit fun bytes => decide ((maxLength * 2).toInt < bytes))
        .start root).1.buf = collected → collected <+: plainText root →
        ((∃ snippet, GenerateSnippet root maxLength = some snippet ∧
          IsSnippet maxLength.toInt (plainText root) snippet) ↔
        Harmless maxLength.toInt (plainText root) collected) := by
      intro collected ended start
      rw [GenerateSnippet_of_collected positive ended, ← isSnippet_iff positive start]
      simp only [Option.some.injEq, exists_eq_left']
    rcases run_spec (visit fun bytes => decide ((maxLength * 2).toInt < bytes)) .start
      (visits root) with ⟨done, rest, split, stops, ran⟩ | ⟨never, ran⟩
    · obtain ⟨more, whole⟩ := textOf_append done rest
      rw [← split, ← plainText_eq] at whole
      have ended : (walk (visit fun bytes => decide ((maxLength * 2).toInt < bytes))
          .start root).1.buf = textOf done := by
        rw [walked, ran, after_visit]
        rfl
      rw [made _ ended ⟨more, whole.symm⟩]
      constructor
      · intro harmless done' rest' split' stops'
        rw [(stops.unique stops' (split.symm.trans split')).1] at harmless
        exact harmless
      · intro harmless
        exact harmless done rest split stops
    · have ended : (walk (visit fun bytes => decide ((maxLength * 2).toInt < bytes))
          .start root).1.buf = plainText root := by
        rw [walked, plainText_eq, ran, after_visit]
        rfl
      rw [made _ ended (List.prefix_refl _)]
      refine iff_of_true ?_ fun done rest split stops => absurd stops (never done rest split)
      by_cases long : ((plainText root).length : Int) ≤ maxLength.toInt
      · exact .inr (.inl ⟨long, [], (List.append_nil _).symm, fun c hc => absurd hc List.not_mem_nil⟩)
      · exact .inl (Int.not_le.mp long)
  · refine iff_of_false ?_ fun h => positive h.1
    rintro ⟨snippet, -, ⟨long, -⟩ | ⟨-, shown, part, -⟩⟩
    · omega
    · have := part.short
      omega

def paragraph (text : List Char) : RoseTree Node := .node .Paragraph [.node (.Text text false) []]

def twoParagraphs : RoseTree Node :=
  .node .other [paragraph (List.replicate 43 '世'), paragraph ['a']]

/-- There is room for both, but the snippet is the first one. -/
theorem second_paragraph_lost : ¬∀ (root : RoseTree Node) (maxLength : Int64), 0 ≤ maxLength.toInt →
    ∃ snippet, GenerateSnippet root maxLength = some snippet ∧
      IsSnippet maxLength.toInt (plainText root) snippet := by
  intro shown
  have made : GenerateSnippet twoParagraphs 64 = some (List.replicate 43 '世') := by decide
  obtain ⟨snippet, same, ⟨-, whole⟩ | ⟨long, -⟩⟩ := shown twoParagraphs 64 (by decide)
  · obtain rfl := Option.some.inj (made.symm.trans same)
    exact absurd whole (by decide)
  · exact absurd long (by decide)

end Memos.Markdown.Snippet

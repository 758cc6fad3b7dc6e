/-
What is left of a body without some of its references.

The text is followed as the list of the positions of the source that are still there.  The
ranges are cut out from the last to the first, so before a cut the text is the source up to
some position, with what is left of the rest after it, and the ranges that are still to be
cut are before that position.  A cut takes the range, and with a whole line only white space
of a line on which nothing else is left.

It rests on the ranges being apart.  The end of a range that contains another one has moved
when the inner one is gone, and the cut goes on into the text after it.
-/
import Memos.Web.ManagedAttachment

namespace Memos.Web

open Utf16 Find

/-! ### Ranges -/

def unitAt (source : Units) (i : Nat) : UInt16 := source.getD i 0

def white (source : Units) (i : Nat) : Bool := isWhiteSpace (unitAt source i)

/-- The part of a source that an image or a link is: it starts and ends with a bracket or a
mark, so not with white space. -/
structure NodeRange (source : Units) (range : Nat × Nat) : Prop where
  lt : range.1 < range.2
  le : range.2 ≤ source.length
  first : white source range.1 = false
  last : white source (range.2 - 1) = false

def Apart (left right : Nat × Nat) : Prop := left.2 ≤ right.1 ∨ right.2 ≤ left.1

def Within (inner outer : Nat × Nat) : Prop := outer.1 ≤ inner.1 ∧ inner.2 ≤ outer.2

def Matched (ranges : List (Nat × Nat)) (i : Nat) : Prop := ∃ range ∈ ranges, range.1 ≤ i ∧ i < range.2

/-! ### Lines of the text that is left -/

/-- No line break that is left is between the two positions. -/
def SameLine (source : Units) (matched : Nat → Prop) (i j : Nat) : Prop :=
  ∀ k, min i j ≤ k → k < max i j → ¬matched k → unitAt source k ≠ newline

/-- All that is left of the line is white space. -/
def OnBlankLine (source : Units) (matched : Nat → Prop) (i : Nat) : Prop :=
  ∀ j < source.length, ¬matched j → SameLine source matched i j → white source j = true

/-- The text is the source without the matched positions, and without some white space of
lines that are blank without them. -/
structure Cleaned (source : Units) (matched : Nat → Prop) (result : Units) : Prop where
  exists_kept : ∃ kept : List Nat, kept.Pairwise (· < ·) ∧ (∀ i ∈ kept, i < source.length) ∧
    result = kept.map (unitAt source) ∧ (∀ i ∈ kept, ¬matched i) ∧
      ∀ i < source.length, i ∉ kept → ¬matched i → OnBlankLine source matched i

section Text

variable {source : Units} {matched : Nat → Prop} {i j p first stop : Nat}

theorem map_range (le : p ≤ source.length) : (List.range p).map (unitAt source) = source.take p := by
  refine List.ext_getElem (by simp [le]) fun i hi hi' => ?_
  rw [List.length_map, List.length_range] at hi
  rw [List.getElem_map, List.getElem_range, List.getElem_take, unitAt, List.getD_eq_getElem?_getD,
    List.getElem?_eq_getElem (by omega), Option.getD_some]

theorem isBlank_map {positions : List Nat} :
    isBlank (positions.map (unitAt source)) = true ↔ ∀ i ∈ positions, white source i = true := by
  unfold isBlank jsTrim
  rw [decide_eq_true_eq, Trim.trim_eq_nil_iff]
  simp [white]

theorem not_newline_of_not_white (dark : white source i = false) : unitAt source i ≠ newline := by
  intro same
  rw [white, same] at dark
  exact absurd dark (by decide)

theorem white_of_newline (here : unitAt source i = newline) : white source i = true := by
  rw [white, here]
  decide

theorem range_append (le : i ≤ p) : List.range i ++ List.range' i (p - i) = List.range p := by
  have joined := @List.range'_append_1 0 i (p - i)
  rw [Nat.zero_add, Nat.add_sub_cancel' le] at joined
  rw [List.range_eq_range', List.range_eq_range', joined]

/-! ### One cut -/

/-- The positions that are left of a text: those of the source before one, and some after it. -/
def left (p : Nat) (later : List Nat) : List Nat := List.range p ++ later

theorem take_left {later : List Nat} (le : i ≤ p) : (left p later).take i = List.range i := by
  rw [left, ← range_append le, List.append_assoc, List.take_append_of_le_length (by simp)]
  exact List.take_of_length_le (by simp)

theorem drop_left {later : List Nat} (le : i ≤ p) :
    (left p later).drop i = List.range' i (p - i) ++ later := by
  rw [left, ← range_append le, List.append_assoc]
  exact List.drop_left' (List.length_range)

theorem lineStartOf_spec {text : Units} (dark : white text first = false) :
    lineStartOf text first ≤ first ∧
      (lineStartOf text first = 0 ∨ unitAt text (lineStartOf text first - 1) = newline) := by
  unfold lineStartOf
  split
  next none => exact ⟨Nat.zero_le _, .inl rfl⟩
  next i found =>
    obtain ⟨stands, inside⟩ := (standsAt_take (List.cons_ne_nil _ _)).mp
      (lastIndex_standsAt found)
    rw [List.length_singleton] at inside
    have here : unitAt text i = newline := by
      rw [unitAt, List.getD_eq_getElem?_getD, standsAt_singleton.mp stands]
      rfl
    have before : i ≠ first := fun same => not_newline_of_not_white dark (same ▸ here)
    exact ⟨by omega, .inr here⟩

theorem index_newline_map {positions : List Nat} {k : Nat}
    (found : index [newline] (positions.map (unitAt source)) = some k) :
    ∃ line m later, positions = line ++ m :: later ∧ line.length = k ∧ unitAt source m = newline := by
  have here := standsAt_singleton.mp (index_standsAt found)
  rw [List.getElem?_map, Option.map_eq_some_iff] at here
  obtain ⟨m, there, breaks⟩ := here
  obtain ⟨lt, same⟩ := List.getElem?_eq_some_iff.mp there
  refine ⟨positions.take k, m, positions.drop (k + 1), ?_, ?_, breaks⟩
  · rw [← same, ← List.drop_eq_getElem_cons lt, List.take_append_drop]
  · rw [List.length_take]
    omega

/-- What a cut leaves: the text before the range and the rest of it, or the text before the line
of the range and what the rest has after some white space and a line break. -/
inductive Cut (source : Units) (first : Nat) (rest : List Nat) : Nat → List Nat → Prop
  | range : Cut source first rest first rest
  | line {gone later : List Nat}
      (before : ∀ i, lineStartOf source first ≤ i → i < first → white source i = true)
      (parts : rest = gone ++ later) (after : ∀ i ∈ gone, white source i = true)
      (ends : later = [] ∨ ∃ m, gone.getLast? = some m ∧ unitAt source m = newline) :
      Cut source first rest (lineStartOf source first) later

theorem removeRange_cut {later : List Nat} (le : p ≤ source.length) (lt : first < stop)
    (inside : stop ≤ p) (dark : white source first = false) : ∃ start later',
      removeRange ((left p later).map (unitAt source)) (first, stop) =
        (left start later').map (unitAt source) ∧
      Cut source first (List.range' stop (p - stop) ++ later) start later' := by
  have take {n : Nat} (small : n ≤ p) :
      ((left p later).map (unitAt source)).take n = source.take n := by
    rw [← List.map_take, take_left small, map_range (by omega)]
  have start : lineStartOf ((left p later).map (unitAt source)) first = lineStartOf source first := by
    unfold lineStartOf
    rw [take (by omega)]
  have before : isBlank (slice ((left p later).map (unitAt source)) (lineStartOf source first) first) =
      true ↔ ∀ i, lineStartOf source first ≤ i → i < first → white source i = true := by
    have positions : slice ((left p later).map (unitAt source)) (lineStartOf source first) first =
        (List.range' (lineStartOf source first) (first - lineStartOf source first)).map
          (unitAt source) := by
      rw [slice, ← List.map_take, take_left (by omega), ← List.map_drop, List.range_eq_range',
        List.drop_range', Nat.zero_add, Nat.mul_one]
    rw [positions, isBlank_map]
    simp only [List.mem_range'_1]
    constructor
    · intro all i low high
      exact all i ⟨low, by omega⟩
    · intro all i mem
      exact all i mem.1 (by omega)
  have drop : ((left p later).map (unitAt source)).drop stop =
      (List.range' stop (p - stop) ++ later).map (unitAt source) := by
    rw [← List.map_drop, drop_left inside]
  generalize List.range' stop (p - stop) ++ later = rest at drop ⊢
  generalize text_eq : (left p later).map (unitAt source) = text at take start before drop ⊢
  have small := (lineStartOf_spec dark).1
  have front {start : Nat} (near : start ≤ first) (later : List Nat) :
      text.take start ++ later.map (unitAt source) = (left start later).map (unitAt source) := by
    rw [take (by omega), left, List.map_append, map_range (by omega)]
  unfold removeRange
  dsimp only
  rw [start]
  cases found : index [newline] (rest.map (unitAt source)) with
  | none =>
      have next : nextNewlineOf text stop = none := by
        rw [nextNewlineOf, drop, found]
        rfl
      have after : slice text stop text.length = rest.map (unitAt source) := by
        rw [slice, List.take_length, drop]
      rw [next, Option.getD_none, after]
      dsimp only
      by_cases whole : (isBlank (slice text (lineStartOf source first) first) &&
          isBlank (rest.map (unitAt source))) = true
      · rw [whole, if_pos rfl, if_pos rfl, List.drop_length, List.isPrefixOf_cons_nil, Bool.and_false,
          if_neg Bool.false_ne_true, List.drop_length]
        rw [Bool.and_eq_true, before, isBlank_map] at whole
        exact ⟨lineStartOf source first, [], front small [],
          .line whole.1 (List.append_nil rest).symm whole.2 (.inl rfl)⟩
      · rw [Bool.eq_false_iff.mpr whole, if_neg Bool.false_ne_true, if_neg Bool.false_ne_true,
          Bool.false_and, Bool.false_and, if_neg Bool.false_ne_true, drop]
        exact ⟨first, rest, front (Nat.le_refl _) rest, .range⟩
  | some k =>
      obtain ⟨line, m, others, rfl, rfl, breaks⟩ := index_newline_map found
      have next : nextNewlineOf text stop = some (stop + line.length) := by
        rw [nextNewlineOf, drop, found]
        rfl
      have after : slice text stop (stop + line.length) = line.map (unitAt source) := by
        rw [slice, List.drop_take, drop, Nat.add_sub_cancel_left, List.map_append]
        exact List.take_left' (List.length_map _)
      have behind {gone others' : List Nat} (parts : line ++ m :: others = gone ++ others')
          {n : Nat} (length : gone.length = n) :
          text.drop (stop + n) = others'.map (unitAt source) := by
        rw [← List.drop_drop, drop, parts, List.map_append, ← length, ← List.length_map (unitAt source)]
        exact List.drop_left
      rw [next, Option.getD_some, after]
      dsimp only
      by_cases whole : (isBlank (slice text (lineStartOf source first) first) &&
          isBlank (line.map (unitAt source))) = true
      · have one : line ++ m :: others = (line ++ [m]) ++ others := by
          rw [List.append_assoc]
          rfl
        have length : (line ++ [m]).length = line.length + 1 := List.length_append
        rw [whole, if_pos rfl, if_pos rfl, Nat.add_assoc, behind one length]
        rw [Bool.and_eq_true, before, isBlank_map] at whole
        split_ifs with extra
        · rw [Bool.and_eq_true] at extra
          cases others with
          | nil => cases extra.2
          | cons q others =>
              have here : unitAt source q = newline := by
                have starts := extra.2
                rw [List.isPrefixOf_iff_prefix, List.map_cons, List.cons_prefix_cons] at starts
                exact starts.1.symm
              have two : line ++ m :: q :: others = (line ++ [m, q]) ++ others := by
                rw [List.append_assoc]
                rfl
              have length : (line ++ [m, q]).length = line.length + 1 + 1 := List.length_append
              rw [Nat.add_assoc, behind two length]
              refine ⟨lineStartOf source first, others, front small others,
                .line whole.1 two (fun i mem => ?_) (.inr ⟨q, by simp, here⟩)⟩
              rw [List.mem_append, List.mem_pair] at mem
              obtain there | rfl | rfl := mem
              · exact whole.2 i there
              · exact white_of_newline breaks
              · exact white_of_newline here
        · refine ⟨lineStartOf source first, others, ?_, .line whole.1 one (fun i mem => ?_)
            (.inr ⟨m, by simp, breaks⟩)⟩
          · rw [behind one length]
            exact front small others
          · rw [List.mem_append, List.mem_singleton] at mem
            obtain there | rfl := mem
            · exact whole.2 i there
            · exact white_of_newline breaks
      · rw [Bool.eq_false_iff.mpr whole, if_neg Bool.false_ne_true, if_neg Bool.false_ne_true,
          Bool.false_and, Bool.false_and, if_neg Bool.false_ne_true, drop]
        exact ⟨first, _, front (Nat.le_refl _) _, .range⟩

/-! ### The run -/

/-- From the position on, nothing matched is left, and what else is gone was on blank lines. -/
structure Cleared (source : Units) (matched : Nat → Prop) (p : Nat) (later : List Nat) : Prop where
  le : p ≤ source.length
  sorted : later.Pairwise (· < ·)
  inside : ∀ i ∈ later, p ≤ i ∧ i < source.length
  unmatched : ∀ i ∈ later, ¬matched i
  blank : ∀ i, p ≤ i → i < source.length → i ∉ later → ¬matched i → OnBlankLine source matched i

theorem sameLine_refl : SameLine source matched i i := by
  intro k low high
  rw [Nat.min_self] at low
  rw [Nat.max_self] at high
  omega

theorem white_of_onBlankLine (lt : i < source.length) (free : ¬matched i)
    (blank : OnBlankLine source matched i) : white source i = true :=
  blank i lt free sameLine_refl

theorem Cleared.range {later : List Nat} (cleared : Cleared source matched p later)
    (lt : first < stop) (inside : stop ≤ p) (mine : ∀ i, first ≤ i → i < stop → matched i)
    (behind : ∀ i, stop ≤ i → i < p → ¬matched i) :
    Cleared source matched first (List.range' stop (p - stop) ++ later) := by
  have le := cleared.le
  refine ⟨by omega, ?_, fun i mem => ?_, fun i mem => ?_, fun i low high gone free => ?_⟩
  · rw [List.pairwise_append]
    refine ⟨List.pairwise_lt_range', cleared.sorted, fun i mem j mem' => ?_⟩
    rw [List.mem_range'_1] at mem
    have := (cleared.inside j mem').1
    omega
  · obtain here | there := List.mem_append.mp mem
    · rw [List.mem_range'_1] at here
      omega
    · have := cleared.inside i there
      omega
  · obtain here | there := List.mem_append.mp mem
    · rw [List.mem_range'_1] at here
      exact behind i here.1 (by omega)
    · exact cleared.unmatched i there
  · rw [List.mem_append, List.mem_range'_1, not_or] at gone
    by_cases before : i < stop
    · exact absurd (mine i low before) free
    · exact cleared.blank i (by omega) high gone.2 free

theorem Cleared.line {start : Nat} {gone later : List Nat}
    (cleared : Cleared source matched first (gone ++ later)) (le : start ≤ first)
    (opens : start = 0 ∨ unitAt source (start - 1) = newline ∧ ¬matched (start - 1))
    (before : ∀ i, start ≤ i → i < first → white source i = true)
    (after : ∀ i ∈ gone, white source i = true)
    (ends : later = [] ∨ ∃ m, gone.getLast? = some m ∧ unitAt source m = newline) :
    Cleared source matched start later := by
  have short := cleared.le
  have sorted := List.pairwise_append.mp cleared.sorted
  -- The line, or the lines, end before this position.
  obtain ⟨bound, far, gone_lt, later_le, closes⟩ : ∃ bound, first ≤ bound ∧ (∀ i ∈ gone, i < bound) ∧
      (∀ i ∈ later, bound ≤ i) ∧ (bound = source.length ∨
        ∃ m, bound = m + 1 ∧ unitAt source m = newline ∧ ¬matched m) := by
    obtain rfl | ⟨m, last, breaks⟩ := ends
    · exact ⟨source.length, short, fun i mem => (cleared.inside i (List.mem_append_left _ mem)).2,
        by simp, .inl rfl⟩
    · obtain ⟨init, rfl⟩ := List.getLast?_eq_some_iff.mp last
      have mem : m ∈ init ++ [m] := List.mem_append_right _ (List.mem_singleton_self m)
      have := (cleared.inside m (List.mem_append_left _ mem)).1
      refine ⟨m + 1, by omega, fun i there => ?_, fun i there => sorted.2.2 m mem i there,
        .inr ⟨m, rfl, breaks, cleared.unmatched m (List.mem_append_left _ mem)⟩⟩
      obtain inner | same := List.mem_append.mp there
      · have := (List.pairwise_append.mp sorted.1).2.2 i inner m (List.mem_singleton_self m)
        omega
      · have := List.mem_singleton.mp same
        omega
  have whites (j : Nat) (low : start ≤ j) (high : j < bound) (lt : j < source.length)
      (free : ¬matched j) : white source j = true := by
    by_cases front : j < first
    · exact before j low front
    by_cases there : j ∈ gone
    · exact after j there
    · refine white_of_onBlankLine lt free (cleared.blank j (by omega) lt (fun mem => ?_) free)
      obtain here | behind := List.mem_append.mp mem
      · exact there here
      · have := later_le j behind
        omega
  refine ⟨by omega, sorted.2.1, fun i mem => ?_,
    fun i mem => cleared.unmatched i (List.mem_append_right _ mem), fun i low high out free => ?_⟩
  · have := cleared.inside i (List.mem_append_right _ mem)
    omega
  · by_cases inner : i < bound
    · intro j lt free' same
      refine whites j ?_ ?_ lt free'
      · -- Before the line stands a line break, or nothing.
        obtain zero | ⟨breaks, kept⟩ := opens
        · omega
        · by_contra outside
          exact same (start - 1) (by omega) (by omega) kept breaks
      · obtain full | ⟨m, eq, breaks, kept⟩ := closes
        · omega
        · by_contra outside
          exact same m (by omega) (by omega) kept breaks
    · refine cleared.blank i (by omega) high (fun mem => ?_) free
      obtain here | behind := List.mem_append.mp mem
      · exact inner (gone_lt i here)
      · exact out behind

theorem Cleared.cut {later todo} {range : Nat × Nat} (cleared : Cleared source matched p later)
    (nodeRange : NodeRange source range) (inside : range.2 ≤ p)
    (before : ∀ other ∈ todo, NodeRange source other ∧ other.2 ≤ range.1)
    (matched_iff : ∀ i < p, matched i ↔ Matched (range :: todo) i) :
    ∃ start later', removeRange ((left p later).map (unitAt source)) range =
        (left start later').map (unitAt source) ∧
      Cleared source matched start later' ∧ (∀ other ∈ todo, other.2 ≤ start) ∧
        ∀ i < start, matched i ↔ Matched todo i := by
  have le := nodeRange.le
  have lt := nodeRange.lt
  have mine (i : Nat) (low : range.1 ≤ i) (high : i < range.2) : matched i :=
    (matched_iff i (by omega)).mpr ⟨range, List.mem_cons_self, low, high⟩
  have early (i : Nat) (small : i < range.1) : matched i ↔ Matched todo i := by
    rw [matched_iff i (by omega)]
    constructor
    · intro ⟨other, mem, low, high⟩
      obtain rfl | there := List.mem_cons.mp mem
      · omega
      · exact ⟨other, there, low, high⟩
    · intro ⟨other, mem, at_⟩
      exact ⟨other, List.mem_cons_of_mem _ mem, at_⟩
  have behind (i : Nat) (low : range.2 ≤ i) (high : i < p) : ¬matched i := by
    rw [matched_iff i high]
    intro ⟨other, mem, _, inner⟩
    obtain rfl | there := List.mem_cons.mp mem
    · omega
    · have := (before other there).2
      omega
  have next := cleared.range lt inside mine behind
  obtain ⟨start, later', text, cut⟩ := @removeRange_cut source p range.1 range.2 later cleared.le lt
    inside nodeRange.first
  refine ⟨start, later', text, ?_⟩
  cases cut with
  | range => exact ⟨next, fun other mem => (before other mem).2, early⟩
  | @line gone _ blank parts after ends =>
      obtain ⟨near, opens⟩ := lineStartOf_spec nodeRange.first
      -- A range that ended in the blank part of the line would end with white space.
      have apart (other : Nat × Nat) (mem : other ∈ todo) :
          other.2 ≤ lineStartOf source range.1 := by
        have isRange := (before other mem).1
        have far := (before other mem).2
        have some := isRange.lt
        by_contra beyond
        have whitespace := blank (other.2 - 1) (by omega) (by omega)
        rw [isRange.last] at whitespace
        cases whitespace
      refine ⟨?_, apart, fun i small => early i (by omega)⟩
      rw [parts] at next
      refine next.line near ?_ blank after ends
      obtain zero | breaks := opens
      · exact .inl zero
      by_cases zero : lineStartOf source range.1 = 0
      · exact .inl zero
      refine .inr ⟨breaks, ?_⟩
      rw [early _ (by omega)]
      intro ⟨other, mem, low, high⟩
      have touching : other.2 - 1 = lineStartOf source range.1 - 1 := by
        have := apart other mem
        omega
      have dark := (before other mem).1.last
      rw [touching, white_of_newline breaks] at dark
      cases dark

theorem foldl_removeRange_cleared {later ranges} (cleared : Cleared source matched p later)
    (nodeRanges : ∀ range ∈ ranges, NodeRange source range ∧ range.2 ≤ p)
    (apart : ranges.Pairwise fun right left : Nat × Nat => left.2 ≤ right.1)
    (matched_iff : ∀ i < p, matched i ↔ Matched ranges i) :
    Cleaned source matched (ranges.foldl removeRange ((left p later).map (unitAt source))) := by
  induction ranges generalizing p later with
  | nil =>
      have free (i : Nat) (mem : i ∈ List.range p) : ¬matched i := by
        rw [matched_iff i (List.mem_range.mp mem)]
        intro ⟨other, mem, _⟩
        cases mem
      refine ⟨left p later, ?_, fun i mem => ?_, rfl, fun i mem => ?_, fun i lt out => ?_⟩
      · refine List.pairwise_append.mpr ⟨List.pairwise_lt_range, cleared.sorted, fun i mem j mem' => ?_⟩
        have small := List.mem_range.mp mem
        have := (cleared.inside j mem').1
        omega
      · obtain here | there := List.mem_append.mp mem
        · have small := List.mem_range.mp here
          have := cleared.le
          omega
        · exact (cleared.inside i there).2
      · exact (List.mem_append.mp mem).elim (free i) (cleared.unmatched i)
      · rw [left, List.mem_append, not_or, List.mem_range, Nat.not_lt] at out
        exact cleared.blank i out.1 lt out.2
  | cons range ranges ih =>
      rw [List.forall_mem_cons] at nodeRanges
      rw [List.pairwise_cons] at apart
      obtain ⟨start, later', text, next, done, matched_iff⟩ := cleared.cut nodeRanges.1.1
        nodeRanges.1.2 (fun other mem => ⟨(nodeRanges.2 other mem).1, apart.1 other mem⟩) matched_iff
      rw [List.foldl_cons, text]
      exact ih next (fun other mem => ⟨(nodeRanges.2 other mem).1, done other mem⟩) apart.2 matched_iff

/-- Ranges that are apart are sorted from the last to the first. -/
theorem sortRanges_apart {ranges : List (Nat × Nat)} (some : ∀ range ∈ ranges, range.1 < range.2)
    (apart : ranges.Pairwise Apart) :
    (sortRanges ranges).Pairwise fun right left : Nat × Nat => left.2 ≤ right.1 := by
  have perm : (sortRanges ranges).Perm ranges := List.perm_insertionSort _ ranges
  have total : Std.Total fun right left : Nat × Nat => left.1 ≤ right.1 :=
    ⟨fun right left => Nat.le_total left.1 right.1⟩
  have trans : IsTrans (Nat × Nat) fun right left : Nat × Nat => left.1 ≤ right.1 :=
    ⟨fun _ _ _ first second => Nat.le_trans second first⟩
  have sorted : (sortRanges ranges).Pairwise fun right left : Nat × Nat => left.1 ≤ right.1 :=
    List.pairwise_insertionSort _ ranges
  have still : (sortRanges ranges).Pairwise Apart :=
    (perm.pairwise_iff fun {a b} (h : Apart a b) => Or.symm h).mpr apart
  refine (sorted.and still).imp_of_mem fun {right left} mem mem' ⟨order, separate⟩ => ?_
  have := some right (perm.mem_iff.mp mem)
  obtain beyond | fine := separate
  · omega
  · exact fine

theorem removeRanges_cleaned {ranges : List (Nat × Nat)}
    (nodeRanges : ∀ range ∈ ranges, NodeRange source range) (apart : ranges.Pairwise Apart) :
    Cleaned source (Matched ranges) (removeRanges source ranges) := by
  have perm : (sortRanges ranges).Perm ranges := List.perm_insertionSort _ ranges
  have start : Cleared source (Matched ranges) source.length [] :=
    ⟨Nat.le_refl _, List.Pairwise.nil, by simp, by simp, fun i low high => by omega⟩
  have whole : (left source.length []).map (unitAt source) = source := by
    rw [left, List.append_nil, map_range (Nat.le_refl _), List.take_length]
  unfold removeRanges
  conv_rhs => rw [← whole]
  refine foldl_removeRange_cleared start (fun range mem => ?_)
    (sortRanges_apart (fun range mem => (nodeRanges range mem).lt) apart) fun i _ => ?_
  · have isRange := nodeRanges range (perm.mem_iff.mp mem)
    exact ⟨isRange, isRange.le⟩
  · unfold Matched
    simp only [perm.mem_iff]

end Text

/-! ### The tree -/

mutual

/-- The positions of a tree: each node in its parent, and the children one after the other. -/
def Placed (low high : Nat) : MdNode → Prop
  | .node _ position children =>
    ∃ range, position = some range ∧ low ≤ range.1 ∧ range.1 ≤ range.2 ∧ range.2 ≤ high ∧
      PlacedAll range.1 range.2 children

def PlacedAll (low high : Nat) : List MdNode → Prop
  | [] => True
  | child :: children =>
    Placed low high child ∧ ∀ range, child.position = some range → PlacedAll range.2 high children

end

def MdType.isReference : MdType → Prop
  | .image _ | .imageReference _ | .link _ | .linkReference _ => True
  | _ => False

/-- The images and links of a tree are parts of the source. -/
def Bracketed (source : Units) (tree : MdNode) : Prop :=
  ∀ node ∈ tree.visit, node.type.isReference → ∀ range, node.position = some range →
    NodeRange source range

section Tree

/-- A later node is apart from an earlier one or within it. -/
def Nested (earlier later : MdNode) : Prop :=
  ∀ outer, earlier.position = some outer → ∀ inner, later.position = some inner →
    Apart outer inner ∨ Within inner outer

def Between (low high : Nat) (node : MdNode) : Prop :=
  ∀ range, node.position = some range → low ≤ range.1 ∧ range.2 ≤ high

theorem Between.mono {low high low' high' : Nat} {node : MdNode} (between : Between low high node)
    (le : low' ≤ low) (le' : high ≤ high') : Between low' high' node := by
  intro range here
  have := between range here
  omega

mutual

theorem Placed.nested {low high : Nat} : (tree : MdNode) → Placed low high tree →
    (∀ node ∈ tree.visit, Between low high node) ∧ tree.visit.Pairwise Nested
  | .node type position children, placed => by
      obtain ⟨range, rfl, first, le, last, inner⟩ := placed
      obtain ⟨between, nested⟩ := PlacedAll.nested children inner
      rw [MdNode.visit]
      refine ⟨fun node mem => ?_, List.pairwise_cons.mpr ⟨fun node mem => ?_, nested⟩⟩
      · obtain rfl | there := List.mem_cons.mp mem
        · intro own here
          injection here with here
          subst here
          exact ⟨first, last⟩
        · exact (between node there).mono first last
      · intro outer here inner' there
        injection here with here
        subst here
        exact .inr (between node mem inner' there)

theorem PlacedAll.nested {low high : Nat} : (trees : List MdNode) → PlacedAll low high trees →
    (∀ node ∈ MdNode.visitAll trees, Between low high node) ∧ (MdNode.visitAll trees).Pairwise Nested
  | [], _ => by simp [MdNode.visitAll]
  | .node type position children :: trees, placed => by
      obtain ⟨⟨range, rfl, first, le, last, inner⟩, others⟩ := placed
      have here : Placed range.1 range.2 (.node type (some range) children) :=
        ⟨range, rfl, Nat.le_refl _, le, Nat.le_refl _, inner⟩
      obtain ⟨between, nested⟩ := Placed.nested _ here
      obtain ⟨between', nested'⟩ := PlacedAll.nested trees (others range rfl)
      rw [MdNode.visitAll]
      refine ⟨fun node mem => ?_, List.pairwise_append.mpr
        ⟨nested, nested', fun node mem node' mem' => ?_⟩⟩
      · obtain inside | after := List.mem_append.mp mem
        · exact (between node inside).mono first last
        · exact (between' node after).mono (by omega) (Nat.le_refl _)
      · intro outer there inner' there'
        have := between node mem outer there
        have := between' node' mem' inner' there'
        exact .inl (.inl (by omega))

end

/-! ### The index -/

section Index

variable (classify : Units → ManagedImageURL) (normalizeIdentifier : Units → Units)

/-- What a node adds to the index. -/
def referenceOf (definitions : List (Units × Units)) (node : MdNode) : Option ManagedImageNode :=
  (destinationOf normalizeIdentifier definitions node).bind fun found =>
    if found.1 = [] then none
    else
      match classify found.1 with
      | .managed uid => some ⟨uid, found.2, node.position.map Prod.fst, node.position.map Prod.snd⟩
      | _ => none

variable {classify normalizeIdentifier} {definitions : List (Units × Units)}

theorem addReference_fst (index : List ManagedImageNode × List Units) {node : MdNode}
    {destination : Units} {kind : ManagedKind}
    (found : destinationOf normalizeIdentifier definitions node = some (destination, kind)) :
    (addReference classify index node.position destination kind).1 =
      index.1 ++ (referenceOf classify normalizeIdentifier definitions node).toList := by
  rw [referenceOf, found, Option.bind_some]
  unfold addReference
  dsimp only
  by_cases blank : destination = []
  · rw [if_pos blank, if_pos blank]
    simp
  · rw [if_neg blank, if_neg blank]
    cases classify destination with
    | unmanaged => simp
    | invalid =>
        dsimp only
        split_ifs <;> simp
    | managed uid => rfl

theorem visitNode_fst (index : List ManagedImageNode × List Units) (node : MdNode) :
    (visitNode classify normalizeIdentifier definitions index node).1 =
      index.1 ++ (referenceOf classify normalizeIdentifier definitions node).toList := by
  have none (missing : destinationOf normalizeIdentifier definitions node = none) :
      index.1 = index.1 ++ (referenceOf classify normalizeIdentifier definitions node).toList := by
    rw [referenceOf, missing]
    simp
  unfold visitNode
  split
  next raw html =>
    have missing : destinationOf normalizeIdentifier definitions node = Option.none := by
      rw [destinationOf, html]
    split_ifs
    · exact none missing
    · exact none missing
  · split
    next missing => exact none missing
    next destination kind found => exact addReference_fst index found

theorem foldl_visitNode_fst (index : List ManagedImageNode × List Units) (nodes : List MdNode) :
    (nodes.foldl (visitNode classify normalizeIdentifier definitions) index).1 =
      index.1 ++ nodes.filterMap (referenceOf classify normalizeIdentifier definitions) := by
  induction nodes generalizing index with
  | nil => exact (List.append_nil _).symm
  | cons node nodes ih =>
      rw [List.foldl_cons, ih, visitNode_fst, List.append_assoc]
      cases found : referenceOf classify normalizeIdentifier definitions node with
      | none => rw [List.filterMap_cons_none found, Option.toList_none, List.nil_append]
      | some reference => rw [List.filterMap_cons_some found, Option.toList_some, List.singleton_append]

theorem referenceOf_some {node : MdNode} {reference : ManagedImageNode}
    (found : referenceOf classify normalizeIdentifier definitions node = some reference) :
    node.type.isReference ∧ reference.start = node.position.map Prod.fst ∧
      reference.stop = node.position.map Prod.snd := by
  obtain ⟨destination, there, found⟩ := Option.bind_eq_some_iff.mp found
  split_ifs at found with blank
  split at found
  next uid managed =>
    injection found with found
    subst found
    refine ⟨?_, rfl, rfl⟩
    unfold destinationOf at there
    obtain ⟨type, position, children⟩ := node
    cases type with
    | image | imageReference | link | linkReference => trivial
    | definition | html | text | other => cases there
  · cases found

/-- The ranges to be removed are those of some nodes of the tree, in its order. -/
theorem rangesOf_eq (nodes : List MdNode) (uids : List Units) :
    ∃ select : MdNode → Option (Nat × Nat),
      (∀ node range, select node = some range →
        node.type.isReference ∧ node.position = some range) ∧
      rangesOf (nodes.filterMap (referenceOf classify normalizeIdentifier definitions)) uids =
        nodes.filterMap select := by
  unfold rangesOf
  rw [List.filterMap_filterMap]
  refine ⟨_, fun node range found => ?_, rfl⟩
  obtain ⟨reference, there, found⟩ := Option.bind_eq_some_iff.mp found
  obtain ⟨type, start, stop⟩ := referenceOf_some there
  split_ifs at found with chosen
  rw [start, stop] at found
  cases place : node.position with
  | none =>
      rw [place] at found
      cases found
  | some own =>
      rw [place] at found
      exact ⟨type, found⟩

end Index

/-- Nothing that is removed contains something else that is. -/
def Flat (ranges : List (Nat × Nat)) : Prop :=
  ranges.Pairwise fun outer inner => ¬Within inner outer

def classifyPath (destination : Units) : ManagedImageURL :=
  if MANAGED_ATTACHMENT_PATH_PREFIX.isPrefixOf destination then
    .managed (destination.drop MANAGED_ATTACHMENT_PATH_PREFIX.length)
  else .unmanaged

def imageSource : Units := units "see ![b](/file/attachments/b) there"

def imageTree : MdNode :=
  .node .other (some (0, 35)) [.node (.text (units "see ")) (some (0, 4)) [],
    .node (.image (units "/file/attachments/b")) (some (4, 29)) [],
    .node (.text (units " there")) (some (29, 35)) []]

/-- An image in a video link, with text after the link. -/
def nestedSource : Units := units "[video:a ![b](/file/attachments/b)](/file/attachments/v) tail"

def nestedTree : MdNode :=
  .node .other (some (0, 61)) [
    .node (.link (units "/file/attachments/v")) (some (0, 56)) [
      .node (.text (units "video:a ")) (some (1, 9)) [],
      .node (.image (units "/file/attachments/b")) (some (9, 34)) []],
    .node (.text (units " tail")) (some (56, 61)) []]

end Tree

end Memos.Web

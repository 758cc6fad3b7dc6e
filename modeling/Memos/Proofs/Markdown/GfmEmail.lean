/-
The emails of a run and their ranges in the source.

The units of the decoded text are in the order of their spellings.  Two of them have one
spelling only where a reference decodes to several, and of the references there are the only
one with two characters an email may have is "fj", which no email ends within.  So emails that
are apart in the decoded text are apart in the source.
-/
import Memos.Proofs.Markdown.EmailProjection

namespace Memos.Markdown.GfmEmail

open Base

variable {α : Type} {code : α → Nat} {p : Projector α} {source : List α} {units rest : List (ProjectedUnit α)}
  {x y : ProjectedUnit α} {i j cursor upperBound start introducer stop : Nat}

/-! ### Units with one spelling -/

/-- Behind the first unit of a decoded text stand no ASCII characters, but for a letter or
digit right behind it. -/
def Tight (code : α → Nat) : List α → Prop
  | [] => True
  | _ :: rest =>
      (∀ v ∈ rest.tail, 128 ≤ code v) ∧
        (∀ v ∈ rest.head?, 128 ≤ code v ∨ isASCIIAlphanumeric (code v) = true) ∧ Tight code rest

/-- A unit is before the units after it, and its spelling before the spellings of theirs, unless
they have one spelling. -/
def Ordered (code : α → Nat) : List (ProjectedUnit α) → Prop
  | [] => True
  | x :: rest =>
      (∀ y ∈ rest, x.start ≤ y.start ∧ x.stop ≤ y.stop) ∧
        (∀ y ∈ rest.tail, x.stop ≤ y.start ∨ 128 ≤ code y.value) ∧
        (∀ y ∈ rest.head?, x.stop ≤ y.start ∨ 128 ≤ code y.value ∨ isASCIIAlphanumeric (code y.value) = true) ∧
        Ordered code rest

theorem Ordered.get (is : Ordered code units) (lt : i < j) (first : units[i]? = some x)
    (second : units[j]? = some y) :
    x.start ≤ y.start ∧ x.stop ≤ y.stop ∧
      (x.stop ≤ y.start ∨ 128 ≤ code y.value ∨ j = i + 1 ∧ isASCIIAlphanumeric (code y.value) = true) := by
  induction units generalizing i j with
  | nil => cases first
  | cons unit rest ih =>
      obtain ⟨order, others, next, tail⟩ := is
      obtain ⟨j, rfl⟩ : ∃ k, j = k + 1 := ⟨j - 1, by omega⟩
      rw [List.getElem?_cons_succ] at second
      cases i with
      | succ i =>
          rw [List.getElem?_cons_succ] at first
          obtain ⟨starts, stops, apart⟩ := ih tail (by omega) first second
          refine ⟨starts, stops, ?_⟩
          rcases apart with apart | large | ⟨rfl, letter⟩
          · exact .inl apart
          · exact .inr (.inl large)
          · exact .inr (.inr ⟨rfl, letter⟩)
      | zero =>
          rw [List.getElem?_cons_zero, Option.some_inj] at first
          cases first
          obtain ⟨starts, stops⟩ := order y (List.mem_of_getElem? second)
          refine ⟨starts, stops, ?_⟩
          cases j with
          | zero =>
              rw [← List.head?_eq_getElem?] at second
              rcases next y second with apart | large | letter
              · exact .inl apart
              · exact .inr (.inl large)
              · exact .inr (.inr ⟨rfl, letter⟩)
          | succ j =>
              rw [← List.getElem?_tail] at second
              rcases others y (List.mem_of_getElem? second) with apart | large
              · exact .inl apart
              · exact .inr (.inl large)

theorem ordered_append {group : List α} (tight : Tight code group) (le : start ≤ stop)
    (behind : ∀ y ∈ rest, stop ≤ y.start ∧ stop ≤ y.stop) (is : Ordered code rest) :
    Ordered code (group.map (fun unit => ⟨unit, start, stop⟩) ++ rest) := by
  induction group with
  | nil => exact is
  | cons unit group ih =>
      obtain ⟨others, next, tail⟩ := tight
      refine ⟨fun y mem => ?_, fun y mem => ?_, fun y mem => ?_, ih tail⟩
      · rcases List.mem_append.mp mem with own | mem
        · obtain ⟨unit', -, rfl⟩ := List.mem_map.mp own
          exact ⟨Nat.le_refl start, Nat.le_refl stop⟩
        · obtain ⟨starts, stops⟩ := behind y mem
          exact ⟨Nat.le_trans le starts, stops⟩
      · cases group with
        | nil => exact .inl (behind y (List.mem_of_mem_tail mem)).1
        | cons unit' group =>
            rcases List.mem_append.mp mem with own | mem
            · obtain ⟨v, memV, rfl⟩ := List.mem_map.mp own
              exact .inr (others v memV)
            · exact .inl (behind y mem).1
      · cases group with
        | nil => exact .inl (behind y (List.mem_of_mem_head? mem)).1
        | cons unit' group =>
            cases mem
            exact .inr (next unit' rfl)

/-- A projector whose references end in the run and decode to text as above. -/
structure Tidy (p : Projector α) (source : List α) (upperBound : Nat) : Prop where
  inside : ∀ cursor stop decoded, p.referenceAt source cursor upperBound = some (stop, decoded) →
    stop ≤ upperBound ∧ Tight p.code decoded
  single : ∀ cursor, p.isPair source cursor = false

theorem ordered_step {group : List α} (tight : Tight code group) (lt : cursor < stop) (le : stop ≤ upperBound)
    (is : Ordered code rest ∧ ∀ y ∈ rest, stop ≤ y.start ∧ y.start < y.stop ∧ y.stop ≤ upperBound) :
    Ordered code (group.map (fun unit => ⟨unit, cursor, stop⟩) ++ rest) ∧
      ∀ y ∈ group.map (fun unit => ⟨unit, cursor, stop⟩) ++ rest,
        cursor ≤ y.start ∧ y.start < y.stop ∧ y.stop ≤ upperBound := by
  refine ⟨ordered_append tight (Nat.le_of_lt lt) (fun y mem => ?_) is.1, fun y mem => ?_⟩
  · obtain ⟨behind, some, -⟩ := is.2 y mem
    exact ⟨behind, by omega⟩
  · rcases List.mem_append.mp mem with own | mem
    · obtain ⟨unit, -, rfl⟩ := List.mem_map.mp own
      exact ⟨Nat.le_refl cursor, lt, le⟩
    · obtain ⟨behind, some, inside⟩ := is.2 y mem
      exact ⟨by omega, some, inside⟩

theorem tight_of_length {group : List α} (few : group.length ≤ 1) : Tight code group := by
  cases group with
  | nil => trivial
  | cons unit group =>
      have none : group = [] := List.eq_nil_of_length_eq_zero (Nat.le_zero.mp (Nat.le_of_succ_le_succ few))
      rw [none]
      refine ⟨fun v mem => absurd mem List.not_mem_nil, fun v mem => ?_, trivial⟩
      cases mem

theorem ordered_project (cursor : Nat) (tidy : Tidy p source upperBound) :
    Ordered p.code (p.project source upperBound cursor) ∧
      ∀ y ∈ p.project source upperBound cursor, cursor ≤ y.start ∧ y.start < y.stop ∧ y.stop ≤ upperBound := by
  induction cursor using Projector.project.induct p source upperBound with
  | case1 cursor inside escape ih =>
      rw [Projector.project, if_pos inside, if_pos escape]
      refine ordered_step (tight_of_length ?_) (Nat.lt_add_of_pos_right (by decide)) ?_ ih
      · rw [List.length_drop, List.length_take]
        omega
      · unfold Projector.escapesAt at escape
        simp only [Bool.and_eq_true, decide_eq_true_eq] at escape
        omega
  | case2 cursor inside plain stop decoded found ih =>
      rw [Projector.project, if_pos inside, if_neg plain, found]
      obtain ⟨le, tight⟩ := tidy.inside cursor stop decoded found
      exact ordered_step tight (p.forward found) le ih
  | case3 cursor inside plain none stop ih =>
      rw [Projector.project, if_pos inside, if_neg plain, none]
      have one : stop = cursor + 1 := by
        show (if p.isPair source cursor then _ else _) = _
        rw [tidy.single, if_neg Bool.false_ne_true]
      rw [one] at ih
      dsimp only
      rw [tidy.single, if_neg Bool.false_ne_true]
      refine ordered_step (tight_of_length ?_) (Nat.lt_succ_self cursor) inside ih
      rw [List.length_drop, List.length_take]
      omega
  | case4 cursor outside =>
      rw [Projector.project, if_neg outside]
      exact ⟨trivial, fun y mem => absurd mem List.not_mem_nil⟩

/-! ### The ranges -/

theorem value_get (there : units[i]? = some x) : (units.map ProjectedUnit.value)[i]? = some x.value := by
  rw [List.getElem?_map, there]
  rfl

/-- The first and the last unit of what is found. -/
theorem exists_ends_of_mem {first last : Nat}
    (found : (first, last) ∈ findEmails code (units.map ProjectedUnit.value) 0) :
    ∃ x y, first < last ∧ units[first]? = some x ∧ units[last - 1]? = some y := by
  obtain ⟨-, introducer, email⟩ := scans_findEmails.sound _ found
  have some := email.some
  have behind := email.domain.lt
  have inside := email.domain.inside
  rw [List.length_map] at inside
  dsimp only at some behind inside
  exact ⟨_, _, by omega, List.getElem?_eq_getElem (by omega), List.getElem?_eq_getElem (by omega)⟩

theorem Ordered.apart (ordered : Ordered code units) :
    (matchesOf code units).Pairwise fun m m' => m.stop ≤ m'.start := by
  refine List.pairwise_map.mpr (scans_findEmails.apart.imp_of_mem ?_)
  rintro ⟨first, last⟩ ⟨first', last'⟩ found found' le
  obtain ⟨-, y, lt, -, there⟩ := exists_ends_of_mem found
  obtain ⟨x, -, -, there', -⟩ := exists_ends_of_mem found'
  obtain ⟨-, introducer, email⟩ := scans_findEmails.sound _ found
  obtain ⟨-, introducer', email'⟩ := scans_findEmails.sound _ found'
  dsimp only at le email email'
  have ascii : code x.value < 128 := by
    obtain ⟨unit, is, isLocal⟩ := email'.own first' (Nat.le_refl _) email'.some
    rw [value_get there', Option.some_inj] at is
    exact is ▸ lt_of_isLocalChar isLocal
  show (units[last - 1]?.map ProjectedUnit.stop).getD 0 ≤ (units[first']?.map ProjectedUnit.start).getD 0
  rw [there, there', Option.map_some, Option.map_some, Option.getD_some, Option.getD_some]
  rcases (ordered.get (by omega) there there').2.2 with apart | large | ⟨next, letter⟩
  · exact apart
  · omega
  · have same : first' = last := by omega
    rw [same] at there'
    rw [email.domain.not_alphanumeric (value_get there')] at letter
    cases letter

/-! ### References of the server -/

/-- What a character reference decodes to: one character, or one and a mark beyond ASCII, or "fj". -/
def EntityText (text : List Char) : Prop :=
  (∃ c, text = [c]) ∨ (∃ c mark, text = [c, mark] ∧ 128 ≤ mark.toNat) ∨ text = ['f', 'j']

/-- The library decodes what the server takes for a reference. -/
structure Entities (util : MarkdownUtil) : Prop where
  decoded : ∀ source, 0 < characterReferenceLength util source →
    ∃ text, util.resolveReferences (source.take (characterReferenceLength util source)) =
      Coding.utf8.encode text ∧ EntityText text

theorem tight_of_large {group : List α} (large : ∀ v ∈ group, 128 ≤ code v) : Tight code group := by
  induction group with
  | nil => trivial
  | cons unit group ih =>
      have tail : ∀ v ∈ group, 128 ≤ code v := fun v mem => large v (List.mem_cons_of_mem unit mem)
      exact ⟨fun v mem => tail v (List.mem_of_mem_tail mem),
        fun v mem => .inl (tail v (List.mem_of_mem_head? mem)), ih tail⟩

theorem tight_cons {unit : α} {group : List α} (large : ∀ v ∈ group, 128 ≤ code v) : Tight code (unit :: group) :=
  ⟨fun v mem => large v (List.mem_of_mem_tail mem), fun v mem => .inl (large v (List.mem_of_mem_head? mem)),
    tight_of_large large⟩

theorem tight_char {e : Coding α} {units : List α} (c : Char) (large : ∀ v ∈ units, 128 ≤ e.code v) :
    Tight e.code (e.encodeChar c ++ units) := by
  by_cases small : c.toNat < 128
  · obtain ⟨u, is, -⟩ := e.ascii c small
    rw [is]
    exact tight_cons large
  · refine tight_of_large fun v mem => ?_
    rcases List.mem_append.mp mem with mem | mem
    · exact (e.other c (Nat.le_of_not_lt small)).2 v mem
    · exact large v mem

theorem tight_of_entity {e : Coding α} {text : List Char} (is : EntityText text) :
    Tight e.code (e.encode text) := by
  rcases is with ⟨c, rfl⟩ | ⟨c, mark, rfl, large⟩ | rfl
  · exact tight_char c fun v mem => absurd mem List.not_mem_nil
  · refine tight_char c fun v mem => ?_
    have mem : v ∈ e.encodeChar mark ++ [] := mem
    rw [List.append_nil] at mem
    exact (e.other mark large).2 v mem
  · obtain ⟨f, isF, -⟩ := e.ascii 'f' (by decide)
    obtain ⟨j, isJ, code⟩ := e.ascii 'j' (by decide)
    rw [Coding.encode_cons, Coding.encode_cons, isF, isJ]
    refine ⟨fun v mem => absurd mem List.not_mem_nil, fun v mem => .inr ?_, tight_of_length (Nat.le_refl 1)⟩
    cases mem
    rw [code]
    decide

theorem digitsReferenceLength_ends {isDigit : α → Bool} {limit : Nat}
    (pos : 0 < digitsReferenceLength code isDigit source start limit) :
    standsAt code source (digitsReferenceLength code isDigit source start limit - 1) ';' = true := by
  unfold digitsReferenceLength at pos ⊢
  dsimp only at pos ⊢
  split at pos
  next some =>
    rw [if_pos some]
    exact (Bool.and_eq_true _ _ ▸ some).2
  next => cases pos

/-- A reference ends with a semicolon. -/
theorem characterReferenceLength_ends {util : MarkdownUtil} {source : List UInt8}
    (pos : 0 < characterReferenceLength util source) :
    standsAt UInt8.toNat source (characterReferenceLength util source - 1) ';' = true := by
  unfold characterReferenceLength numericReferenceLength at pos ⊢
  split at pos
  next => cases pos
  next some =>
    rw [if_neg some]
    split at pos
    next sign =>
      rw [if_pos sign]
      split at pos
      next hex =>
        rw [if_pos hex]
        exact digitsReferenceLength_ends pos
      next decimal =>
        rw [if_neg decimal]
        exact digitsReferenceLength_ends pos
    next name =>
      rw [if_neg name]
      dsimp only at pos ⊢
      split at pos
      next known =>
        rw [if_pos known]
        exact digitsReferenceLength_ends pos
      next => cases pos

theorem tidy_server {util : MarkdownUtil} (entities : Entities util) (source : List UInt8) :
    Tidy (serverProjector util) source source.length := by
  refine ⟨fun cursor stop decoded found => ?_, fun _ => rfl⟩
  change (if _ then _ else _) = _ at found
  split at found
  next pos =>
    cases found
    have ends := lt_of_standsAt (characterReferenceLength_ends pos)
    rw [List.length_drop] at ends
    obtain ⟨text, is, entity⟩ := entities.decoded _ pos
    refine ⟨by omega, ?_⟩
    rw [is]
    exact (tight_of_entity entity : Tight Coding.utf8.code (Coding.utf8.encode text))
  next => cases found

theorem ordered_server {util : MarkdownUtil} (entities : Entities util) (source : List UInt8) :
    Ordered UInt8.toNat ((serverProjector util).project source source.length 0) :=
  (ordered_project 0 (tidy_server entities source)).1

/-! ### References of both sides -/

section References

variable {util : MarkdownUtil} {decodeString : Utf16.Units → Utf16.Units} {text : List Char}

/-- Both sides decode a reference at the start of a text to the same, or both see none. -/
def ReferenceAlike (util : MarkdownUtil) (decodeString : Utf16.Units → Utf16.Units) (text : List Char) : Prop :=
  (characterReferenceLength util (Coding.utf8.encode text) = 0 ∧
      decodedMarkdownCharacterReferenceAt decodeString (Coding.utf16.encode text) 0
        (Coding.utf16.encode text).length = none) ∨
    ∃ spelling rest decoded, text = spelling ++ rest ∧
      characterReferenceLength util (Coding.utf8.encode text) = (Coding.utf8.encode spelling).length ∧
      util.resolveReferences (Coding.utf8.encode spelling) = Coding.utf8.encode decoded ∧
      decodedMarkdownCharacterReferenceAt decodeString (Coding.utf16.encode text) 0
        (Coding.utf16.encode text).length =
          some ((Coding.utf16.encode spelling).length, Coding.utf16.encode decoded)

/-- Every character reference of a run is decoded alike: no ampersand that is not escaped starts
one for one side only, or one of different texts. -/
def DecodedAlike (util : MarkdownUtil) (decodeString : Utf16.Units → Utf16.Units) (run : List Char) : Prop :=
  ∀ i, run[i]? = some '&' → ¬Escaped (CharEscape run) i → ReferenceAlike util decodeString (run.drop i)

theorem server_referenceAt (run : List Char) (i upperBound : Nat) :
    (serverProjector util).referenceAt (Coding.utf8.encode run) (Coding.utf8.offset run i) upperBound =
      if 0 < characterReferenceLength util (Coding.utf8.encode (run.drop i)) then
        some (Coding.utf8.offset run i + characterReferenceLength util (Coding.utf8.encode (run.drop i)),
          util.resolveReferences ((Coding.utf8.encode (run.drop i)).take
            (characterReferenceLength util (Coding.utf8.encode (run.drop i)))))
      else none := by
  unfold serverProjector
  dsimp only
  rw [Coding.drop_offset]

theorem web_referenceAt (run : List Char) {i : Nat} (inside : i < run.length) :
    (webProjector decodeString).referenceAt (Coding.utf16.encode run) (Coding.utf16.offset run i)
        (Coding.utf16.encode run).length =
      (decodedMarkdownCharacterReferenceAt decodeString (Coding.utf16.encode (run.drop i)) 0
        (Coding.utf16.encode (run.drop i)).length).map fun m => (Coding.utf16.offset run i + m.1, m.2) := by
  have parts : Coding.utf16.encode run =
      Coding.utf16.encode (run.take i) ++ Coding.utf16.encode (run.drop i) ++ [] := by
    rw [List.append_nil, ← Coding.encode_append, List.take_append_drop]
  have length : (Coding.utf16.encode run).length =
      (Coding.utf16.encode (run.take i)).length + (Coding.utf16.encode (run.drop i)).length := by
    rw [parts, List.append_nil, List.length_append]
  have some : 0 < (Coding.utf16.encode (run.drop i)).length := by
    rw [List.length_pos_iff, ne_eq, Coding.encode_eq_nil, List.drop_eq_nil_iff]
    omega
  have within := decodedMarkdownCharacterReferenceAt_within (Coding.utf16.encode (run.take i)) []
    decodeString some
  rw [← length, ← parts] at within
  exact within

theorem ends_of_reference {spelling rest : List Char} (some : spelling ≠ [])
    (length : characterReferenceLength util (Coding.utf8.encode (spelling ++ rest)) =
      (Coding.utf8.encode spelling).length) :
    (spelling ++ rest)[spelling.length - 1]? ≠ .some '\\' := by
  intro there
  have pos : 0 < (Coding.utf8.encode spelling).length := by
    rw [List.length_pos_iff, ne_eq, Coding.encode_eq_nil]
    exact some
  have ends := characterReferenceLength_ends (length ▸ pos)
  obtain ⟨m, u, next, last, same⟩ := Coding.exists_last (e := Coding.utf8) there
  have place : spelling.length - 1 + 1 = spelling.length :=
    Nat.sub_add_cancel (List.length_pos_iff.mpr some)
  rw [place, Coding.offset_append_left] at next
  rw [length, next, Nat.add_sub_cancel] at ends
  obtain ⟨unit, last', semicolon⟩ := standsAt_iff.mp ends
  rw [last, Option.some_inj] at last'
  have code : Coding.utf8.code u = ';'.toNat := by rw [last']; exact semicolon
  rcases same with ⟨same, -⟩ | ⟨large, -⟩
  · rw [code] at same
    exact absurd same (by decide)
  · rw [code] at large
    exact absurd large (by decide)

theorem sameReference {run : List Char} (alike : DecodedAlike util decodeString run) {i : Nat}
    (there : run[i]? = some '&') (clear : ¬Escaped (CharEscape run) i) :
    SameReference (serverProjector util) Coding.utf8 (webProjector decodeString) Coding.utf16 run i := by
  have inside := (List.getElem?_eq_some_iff.mp there).1
  unfold SameReference
  rw [server_referenceAt, web_referenceAt run inside]
  rcases alike i there clear with ⟨none, none'⟩ | ⟨spelling, rest, decoded, parts, length, resolved, found⟩
  · rw [none, none']
    exact .inl ⟨rfl, rfl⟩
  · rw [length, found]
    have forward : 0 < (Coding.utf16.encode spelling).length := (webProjector decodeString).forward found
    have some : spelling ≠ [] := by
      rintro rfl
      cases forward
    have pos : 0 < (Coding.utf8.encode spelling).length := by
      rw [List.length_pos_iff, ne_eq, Coding.encode_eq_nil]
      exact some
    have fits := congrArg List.length parts
    rw [List.length_drop, List.length_append] at fits
    have place {α : Type} (e : Coding α) : e.offset run (i + spelling.length) =
        e.offset run i + (e.encode spelling).length := by
      rw [Coding.offset_add, parts, Coding.offset_append_left]
    have front : (Coding.utf8.encode (run.drop i)).take (Coding.utf8.encode spelling).length =
        Coding.utf8.encode spelling := by
      rw [parts, Coding.encode_append, List.take_left]
    refine .inr ⟨i + spelling.length, decoded, ?_, by omega, ?_, ?_, ?_⟩
    · have short := List.length_pos_iff.mpr some
      omega
    · rw [parts] at length
      have ends := ends_of_reference some length
      have short := List.length_pos_iff.mpr some
      rwa [← parts, List.getElem?_drop, ← Nat.add_sub_assoc short] at ends
    · rw [if_pos pos, front, resolved, place]
    · rw [Option.map_some, place]

end References

/-! ### The emails of both sides -/

section Sides

variable {β : Type} {e : Coding α} {chars : List (ProjectedUnit Char)} {place : Nat → Nat}

/-- A match of the decoded text, as it is found in the units of a coding. -/
def encodeMatch (e : Coding α) (place : Nat → Nat) (m : GFMEmailMatch Char) : GFMEmailMatch α :=
  ⟨place m.start, place m.stop, e.encode m.address⟩

/-- The ends of an email are ASCII. -/
theorem ascii_of_mem {first last : Nat} {x y : ProjectedUnit α}
    (found : (first, last) ∈ findEmails code (units.map ProjectedUnit.value) 0)
    (there : units[first]? = some x) (there' : units[last - 1]? = some y) :
    code x.value < 128 ∧ code y.value < 128 := by
  obtain ⟨-, introducer, email⟩ := scans_findEmails.sound _ found
  dsimp only at email
  constructor
  · obtain ⟨unit, is, isLocal⟩ := email.own first (Nat.le_refl _) email.some
    rw [value_get there, Option.some_inj] at is
    exact is ▸ lt_of_isLocalChar isLocal
  · have behind := email.domain.lt
    refine email.domain.domain.tail.ascii _ (List.mem_of_getElem? (i := last - 1 - (introducer + 1)) ?_)
    rw [List.getElem?_drop, List.getElem?_take_of_lt (by omega)]
    have index : introducer + 1 + (last - 1 - (introducer + 1)) = last - 1 := by omega
    rw [index, value_get there']

theorem matchesOf_image (image : Image e place chars units) :
    matchesOf e.code units = (matchesOf Char.toNat chars).map (encodeMatch e place) := by
  have scan := findEmails_encode (e := e) (Nat.zero_le (chars.map ProjectedUnit.value).length)
  rw [Coding.offset_zero] at scan
  unfold matchesOf
  dsimp only
  rw [image.values, scan, List.map_map, List.map_map]
  refine List.map_congr_left ?_
  rintro ⟨first, last⟩ found
  obtain ⟨x, y, lt, there, there'⟩ := exists_ends_of_mem found
  obtain ⟨small, small'⟩ := ascii_of_mem found there there'
  obtain ⟨unit, at', start, -⟩ := image.get there small
  obtain ⟨unit', at'', -, stop⟩ := image.get there' small'
  obtain ⟨next, -⟩ := Coding.offset_succ (e := e) (value_get there') small'
  rw [Nat.sub_add_cancel (by omega)] at next
  show (⟨_, _, _⟩ : GFMEmailMatch α) = ⟨_, _, _⟩
  dsimp only
  rw [next, Nat.add_sub_cancel, at', at'', there, there', ← next, Coding.take_offset]
  simp only [Option.map_some, Option.getD_some, GFMEmailMatch.mk.injEq]
  refine ⟨start, stop, ?_⟩
  have place' : e.offset (chars.map ProjectedUnit.value) first =
      e.offset ((chars.map ProjectedUnit.value).take last) first := by
    unfold Coding.offset
    rw [List.take_take, Nat.min_eq_left (Nat.le_of_lt lt)]
  rw [place', Coding.drop_offset]

end Sides

/-- One email in the bytes of a run, and in the code units of a source that it is in. -/
def SameEmail (before run : List Char) (m : GFMEmailMatch UInt8) (m' : GFMEmailMatch UInt16) : Prop :=
  ∃ i j address, i < j ∧ j ≤ run.length ∧
    m = ⟨(Coding.utf8.encode (run.take i)).length, (Coding.utf8.encode (run.take j)).length,
      Coding.utf8.encode address⟩ ∧
    m' = ⟨(Coding.utf16.encode (before ++ run.take i)).length, (Coding.utf16.encode (before ++ run.take j)).length,
      Coding.utf16.encode address⟩

/-- Ranges in order and apart from each other, between two bounds. -/
def Ranges {α : Type} (lower upper : Nat) (matches' : List (GFMEmailMatch α)) : Prop :=
  (∀ m ∈ matches', lower ≤ m.start ∧ m.start < m.stop ∧ m.stop ≤ upper) ∧
    matches'.Pairwise fun m m' => m.stop ≤ m'.start

/-- What the matches of both sides have to do with each other and with the rule.  The text they
decode is one text: `decoded`, with the places of the spellings of its characters in the run. -/
structure Agree (before run : List Char) (server : List (ProjectedUnit UInt8)) (web : List (ProjectedUnit UInt16))
    (matches' : List (GFMEmailMatch UInt8)) (webMatches : List (GFMEmailMatch UInt16))
    (decoded : List (ProjectedUnit Char)) : Prop where
  server : Image Coding.utf8 (fun i => (Coding.utf8.encode (run.take i)).length) decoded server
  web : Image Coding.utf16 (fun i => (Coding.utf16.encode (before ++ run.take i)).length) decoded web
  same : List.Forall₂ (SameEmail before run) matches' webMatches
  ranges : Ranges 0 (Coding.utf8.encode run).length matches'
  webRanges : Ranges (Coding.utf16.encode before).length (Coding.utf16.encode (before ++ run)).length webMatches
  complete : ∀ start introducer stop x y,
    Email Char.toNat (decoded.map ProjectedUnit.value) start introducer stop →
    decoded[start]? = some x → decoded[stop - 1]? = some y →
    (∃ m ∈ matches', m.start < (Coding.utf8.encode (run.take y.stop)).length ∧
        (Coding.utf8.encode (run.take x.start)).length < m.stop) ∧
      ∃ m ∈ webMatches, m.start < (Coding.utf16.encode (before ++ run.take y.stop)).length ∧
        (Coding.utf16.encode (before ++ run.take x.start)).length < m.stop

theorem Placed.start_lt {text : List Char} {chars : List (ProjectedUnit Char)} (placed : Placed text 0 chars)
    {x y : ProjectedUnit Char} (le : i ≤ j) (first : chars[i]? = some x) (second : chars[j]? = some y) :
    x.start < y.stop := by
  rcases Nat.eq_or_lt_of_le le with rfl | lt
  · rw [first, Option.some_inj] at second
    exact second ▸ (placed.inside x (List.mem_of_getElem? first)).2.1
  · obtain ⟨inside, rfl⟩ := List.getElem?_eq_some_iff.mp first
    obtain ⟨inside', rfl⟩ := List.getElem?_eq_some_iff.mp second
    have starts := (List.pairwise_iff_getElem.mp placed.ordered i j inside inside' lt).1
    have some := (placed.inside _ (List.getElem_mem inside')).2.1
    omega

theorem inside_of_mem {text : List Char} {chars : List (ProjectedUnit Char)} (placed : Placed text 0 chars)
    {m : GFMEmailMatch Char} (mem : m ∈ matchesOf Char.toNat chars) :
    m.start < m.stop ∧ m.stop ≤ text.length := by
  obtain ⟨⟨first, last⟩, found, rfl⟩ := List.mem_map.mp mem
  obtain ⟨x, y, lt, there, there'⟩ := exists_ends_of_mem found
  dsimp only
  rw [there, there', Option.map_some, Option.map_some, Option.getD_some, Option.getD_some]
  exact ⟨placed.start_lt (by omega) there there', (placed.inside y (List.mem_of_getElem? there')).2.2⟩

/-- Every email of the rule overlaps a match, in the places of the text. -/
theorem overlaps_of_email {text : List Char} {chars : List (ProjectedUnit Char)} (placed : Placed text 0 chars)
    {x y : ProjectedUnit Char} (email : Email Char.toNat (chars.map ProjectedUnit.value) start introducer stop)
    (first : chars[start]? = some x) (last : chars[stop - 1]? = some y) :
    ∃ m ∈ matchesOf Char.toNat chars, m.start < y.stop ∧ x.start < m.stop := by
  have some := email.some
  obtain ⟨⟨first', last'⟩, found, before, behind⟩ :=
    scans_findEmails.complete start introducer stop email (Nat.zero_lt_of_lt some)
  obtain ⟨x', y', -, there, there'⟩ := exists_ends_of_mem found
  refine ⟨_, List.mem_map_of_mem found, ?_, ?_⟩
  · show (chars[first']?.map ProjectedUnit.start).getD 0 < y.stop
    rw [there, Option.map_some, Option.getD_some]
    exact placed.start_lt (by omega) there last
  · show x.start < (chars[last' - 1]?.map ProjectedUnit.stop).getD 0
    rw [there', Option.map_some, Option.getD_some]
    exact placed.start_lt (by omega) first there'

/-- The server and the web client find the same emails of a run whose character references they
decode alike: apart from each other, in order, and none of the rule outside of them. -/
theorem FindGFMEmailMatches_spec (util : MarkdownUtil) (entities : Entities util)
    (decodeString : Utf16.Units → Utf16.Units) (before run after : List Char)
    (alike : DecodedAlike util decodeString run) :
    ∃ decoded, Agree before run
      ((serverProjector util).project (Coding.utf8.encode run) (Coding.utf8.encode run).length 0)
      ((webProjector decodeString).project (Coding.utf16.encode (before ++ run ++ after))
        (Coding.utf16.encode (before ++ run)).length (Coding.utf16.encode before).length)
      (FindGFMEmailMatches util (Coding.utf8.encode run))
      (findGFMEmailMatches decodeString (Coding.utf16.encode (before ++ run ++ after))
        (Coding.utf16.encode before).length (Coding.utf16.encode (before ++ run)).length)
      decoded := by
  obtain ⟨decoded, server, web, placed⟩ := exists_image (reads_server util) (reads_web decodeString)
    (fun i there clear => sameReference alike there clear) (Nat.zero_le run.length) id
  rw [Coding.offset_zero] at server web
  have web' : Image Coding.utf16 (fun i => (Coding.utf16.encode (before ++ run.take i)).length) decoded
      ((webProjector decodeString).project (Coding.utf16.encode (before ++ run ++ after))
        (Coding.utf16.encode (before ++ run)).length (Coding.utf16.encode before).length) := by
    have within := project_within (Coding.utf16.encode before) (Coding.utf16.encode after)
      decodeString (not_isHigh_of_last run) 0
    rw [Nat.add_zero] at within
    have image := web.shift (Coding.utf16.encode before).length
    rw [← within] at image
    simpa only [Coding.encode_append, List.length_append, Coding.offset] using image
  have matches' : FindGFMEmailMatches util (Coding.utf8.encode run) =
      (matchesOf Char.toNat decoded).map (encodeMatch Coding.utf8 (Coding.utf8.offset run)) :=
    matchesOf_image server
  have webMatches : findGFMEmailMatches decodeString (Coding.utf16.encode (before ++ run ++ after))
      (Coding.utf16.encode before).length (Coding.utf16.encode (before ++ run)).length =
      (matchesOf Char.toNat decoded).map (encodeMatch Coding.utf16 fun i =>
        (Coding.utf16.encode (before ++ run.take i)).length) :=
    matchesOf_image web'
  have inside : ∀ m ∈ matchesOf Char.toNat decoded, m.start < m.stop ∧ m.stop ≤ run.length :=
    fun m mem => inside_of_mem placed mem
  have apart : (matchesOf Char.toNat decoded).Pairwise fun m m' => m.stop ≤ m'.start := by
    have units := (ordered_server entities (Coding.utf8.encode run)).apart
    have units : (FindGFMEmailMatches util (Coding.utf8.encode run)).Pairwise fun m m' => m.stop ≤ m'.start :=
      units
    rw [matches', List.pairwise_map] at units
    refine units.imp_of_mem fun {m m'} _ mem' le => ?_
    by_contra later
    have short : m'.start < run.length := by
      have within := inside m' mem'
      omega
    have lt := Coding.offset_lt (e := Coding.utf8) (Nat.lt_of_not_le later) short
    have le : Coding.utf8.offset run m.stop ≤ Coding.utf8.offset run m'.start := le
    omega
  have front (i : Nat) : (Coding.utf16.encode (before ++ run.take i)).length =
      (Coding.utf16.encode before).length + Coding.utf16.offset run i := by
    rw [Coding.encode_append, List.length_append]
    rfl
  refine ⟨decoded, server, web', ?_, ?_, ?_, ?_⟩
  · rw [matches', webMatches, List.forall₂_map_left_iff, List.forall₂_map_right_iff, List.forall₂_same]
    intro m mem
    obtain ⟨some, within⟩ := inside m mem
    exact ⟨m.start, m.stop, m.address, some, within, rfl, rfl⟩
  · rw [matches']
    constructor
    · intro m mem
      obtain ⟨own, memOwn, rfl⟩ := List.mem_map.mp mem
      obtain ⟨some, within⟩ := inside own memOwn
      exact ⟨Nat.zero_le _, Coding.offset_lt some (by omega), Coding.offset_length ▸ Coding.offset_le within⟩
    · exact List.pairwise_map.mpr (apart.imp Coding.offset_le)
  · rw [webMatches]
    constructor
    · intro m mem
      obtain ⟨own, memOwn, rfl⟩ := List.mem_map.mp mem
      obtain ⟨some, within⟩ := inside own memOwn
      have lt : Coding.utf16.offset run own.start < Coding.utf16.offset run own.stop :=
        Coding.offset_lt some (by omega)
      have le : Coding.utf16.offset run own.stop ≤ (Coding.utf16.encode run).length :=
        Coding.offset_length ▸ Coding.offset_le within
      unfold encodeMatch
      dsimp only
      rw [front, front, Coding.encode_append, List.length_append]
      omega
    · refine List.pairwise_map.mpr (apart.imp fun {m m'} le => ?_)
      unfold encodeMatch
      dsimp only
      rw [front, front]
      exact Nat.add_le_add_left (Coding.offset_le le) _
  · intro start introducer stop x y email first last
    obtain ⟨m, mem, before', behind⟩ := overlaps_of_email placed email first last
    have some := (placed.inside y (List.mem_of_getElem? last)).2
    have within := inside m mem
    refine ⟨⟨encodeMatch Coding.utf8 (Coding.utf8.offset run) m, ?_, ?_, ?_⟩,
      encodeMatch Coding.utf16 (fun i => (Coding.utf16.encode (before ++ run.take i)).length) m, ?_, ?_, ?_⟩
    · rw [matches']
      exact List.mem_map_of_mem mem
    · exact Coding.offset_lt before' (by omega)
    · exact Coding.offset_lt behind (by omega)
    · rw [webMatches]
      exact List.mem_map_of_mem mem
    · unfold encodeMatch
      dsimp only
      rw [front, front]
      exact Nat.add_lt_add_left (Coding.offset_lt before' (by omega)) _
    · unfold encodeMatch
      dsimp only
      rw [front, front]
      exact Nat.add_lt_add_left (Coding.offset_lt behind (by omega)) _

/-! ### A library that knows one reference -/

/-- Decodes the reference for a full stop, and takes any other number for none that is known. -/
def stopUtil : MarkdownUtil where
  toPunctTable := asciiPunct
  isAlphaNumeric char := isASCIIAlphanumeric char.toNat
  lookUpHTML5EntityByName _ := false
  resolveReferences spelling :=
    if spelling = Coding.utf8.encode "&#46;".toList then Coding.utf8.encode ['.']
    else Coding.utf8.encode ['\ufffd']

def stopDecodeString (spelling : Utf16.Units) : Utf16.Units :=
  if spelling = Coding.utf16.encode "&#46;".toList then Coding.utf16.encode ['.'] else spelling

theorem entities_stopUtil : Entities stopUtil := by
  refine ⟨fun source _ => ?_⟩
  unfold stopUtil
  dsimp only
  split
  · exact ⟨['.'], rfl, .inl ⟨_, rfl⟩⟩
  · exact ⟨['\ufffd'], rfl, .inl ⟨_, rfl⟩⟩

theorem alike_stop : DecodedAlike stopUtil stopDecodeString "a&#46;b@c.de".toList := by
  intro i there _
  have inside := (List.getElem?_eq_some_iff.mp there).1
  have first : i = 1 := by
    have all : ∀ i < 12, "a&#46;b@c.de".toList[i]? = some '&' → i = 1 := by decide
    exact all i inside there
  rw [first]
  exact .inr ⟨"&#46;".toList, "b@c.de".toList, ['.'], rfl, by decide +kernel, by decide +kernel, by decide +kernel⟩

theorem FindGFMEmailMatches_spec_stop :
    ∃ decoded, Agree "(é) ".toList "a&#46;b@c.de".toList
      ((serverProjector stopUtil).project (Coding.utf8.encode "a&#46;b@c.de".toList)
        (Coding.utf8.encode "a&#46;b@c.de".toList).length 0)
      ((webProjector stopDecodeString).project
        (Coding.utf16.encode ("(é) ".toList ++ "a&#46;b@c.de".toList ++ "!".toList))
        (Coding.utf16.encode ("(é) ".toList ++ "a&#46;b@c.de".toList)).length
        (Coding.utf16.encode "(é) ".toList).length)
      (FindGFMEmailMatches stopUtil (Coding.utf8.encode "a&#46;b@c.de".toList))
      (findGFMEmailMatches stopDecodeString
        (Coding.utf16.encode ("(é) ".toList ++ "a&#46;b@c.de".toList ++ "!".toList))
        (Coding.utf16.encode "(é) ".toList).length
        (Coding.utf16.encode ("(é) ".toList ++ "a&#46;b@c.de".toList)).length)
      decoded :=
  FindGFMEmailMatches_spec stopUtil entities_stopUtil stopDecodeString _ _ _ alike_stop

end Memos.Markdown.GfmEmail

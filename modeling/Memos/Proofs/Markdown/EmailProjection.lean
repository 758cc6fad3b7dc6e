/-
The decoded text in the codings of a text.

Both sides project a run by the same steps through its characters: an escape, a reference, or a
character as it stands.  What they decode is one text in two codings, and an ASCII character of
it has the spelling of one part of the run on both sides.
-/
import Memos.Proofs.Markdown.EmailCoding
import Memos.Proofs.Markdown.Mention

namespace Memos.Markdown.GfmEmail

open Base

variable {α : Type} {e : Coding α} {p : Projector α} {text : List Char} {chars : List (ProjectedUnit Char)}
  {units : List (ProjectedUnit α)} {source : List α} {i j cursor upperBound : Nat} {c d : Char}

/-! ### Units for characters -/

/-- The units for the characters of a decoded text.  Where a character is one unit, its spelling
is at the places in the source of the spelling of the character. -/
inductive Image (e : Coding α) (place : Nat → Nat) :
    List (ProjectedUnit Char) → List (ProjectedUnit α) → Prop
  | nil : Image e place [] []
  | single {x : ProjectedUnit Char} {y : ProjectedUnit α} {chars units} (unit : e.encodeChar x.value = [y.value])
      (start : y.start = place x.start) (stop : y.stop = place x.stop)
      (tail : Image e place chars units) : Image e place (x :: chars) (y :: units)
  | block {x : ProjectedUnit Char} {own chars units} (large : 128 ≤ x.value.toNat)
      (values : own.map ProjectedUnit.value = e.encodeChar x.value)
      (tail : Image e place chars units) : Image e place (x :: chars) (own ++ units)

variable {place : Nat → Nat}

theorem Image.values (image : Image e place chars units) :
    units.map ProjectedUnit.value = e.encode (chars.map ProjectedUnit.value) := by
  induction image with
  | nil => rfl
  | single unit _ _ _ ih =>
      rw [List.map_cons, List.map_cons, Coding.encode_cons, unit, ih]
      rfl
  | block _ values _ ih => rw [List.map_append, List.map_cons, Coding.encode_cons, values, ih]

/-- An ASCII character is at its offset, with the offsets of its spelling. -/
theorem Image.get (image : Image e place chars units) {x : ProjectedUnit Char} (there : chars[i]? = some x)
    (small : x.value.toNat < 128) :
    ∃ y, units[e.offset (chars.map ProjectedUnit.value) i]? = some y ∧
      y.start = place x.start ∧ y.stop = place x.stop := by
  induction image generalizing i with
  | nil => cases there
  | @single x' y chars units unit start stop tail ih =>
      cases i with
      | zero =>
          rw [List.getElem?_cons_zero, Option.some_inj] at there
          exact ⟨y, rfl, there ▸ start, there ▸ stop⟩
      | succ i =>
          rw [List.getElem?_cons_succ] at there
          obtain ⟨y', there', spelling⟩ := ih there
          refine ⟨y', ?_, spelling⟩
          rw [List.map_cons, Coding.offset_cons, unit, List.length_singleton, Nat.add_comm,
            List.getElem?_cons_succ, there']
  | @block x' own chars units large values tail ih =>
      cases i with
      | zero =>
          rw [List.getElem?_cons_zero, Option.some_inj] at there
          rw [there] at large
          omega
      | succ i =>
          rw [List.getElem?_cons_succ] at there
          obtain ⟨y', there', spelling⟩ := ih there
          refine ⟨y', ?_, spelling⟩
          rw [List.map_cons, Coding.offset_cons, ← values, List.length_map, List.getElem?_append_right
            (Nat.le_add_right _ _), Nat.add_sub_cancel_left, there']

/-- A decoded text whose characters have one spelling. -/
theorem Image.decoded (image : Image e place chars units) (decoded : List Char) (start stop : Nat) :
    Image e place (decoded.map (fun c => ⟨c, start, stop⟩) ++ chars)
      ((e.encode decoded).map (fun unit => ⟨unit, place start, place stop⟩) ++ units) := by
  induction decoded with
  | nil => exact image
  | cons c decoded ih =>
      by_cases small : c.toNat < 128
      · obtain ⟨u, is, -⟩ := e.ascii c small
        rw [Coding.encode_cons, is]
        exact .single is rfl rfl ih
      · rw [Coding.encode_cons, List.map_append, List.append_assoc]
        refine .block (Nat.le_of_not_lt small) ?_ ih
        rw [List.map_map]
        exact List.map_id _

/-! ### One step -/

/-- A backslash in the text, and ASCII punctuation after it. -/
def CharEscape (text : List Char) (i : Nat) : Prop :=
  text[i]? = some '\\' ∧ ∃ c, text[i + 1]? = some c ∧ ASCIIPunctuation c.toNat

theorem lt_of_escapesAt (escape : p.escapesAt source upperBound cursor = true) : cursor + 1 < upperBound := by
  unfold Projector.escapesAt at escape
  simp only [Bool.and_eq_true, decide_eq_true_eq] at escape
  exact escape.1.2

theorem project_of_escape (escape : p.escapesAt source upperBound cursor = true) :
    p.project source upperBound cursor =
      projectUnits source (cursor + 1) (cursor + 2) cursor (cursor + 2) ++
        p.project source upperBound (cursor + 2) := by
  rw [Projector.project, if_pos (Nat.lt_of_succ_lt (lt_of_escapesAt escape)), if_pos escape]

theorem project_of_reference {stop : Nat} {decoded : List α} (inside : cursor < upperBound)
    (plain : p.escapesAt source upperBound cursor = false)
    (found : p.referenceAt source cursor upperBound = some (stop, decoded)) :
    p.project source upperBound cursor =
      decoded.map (fun unit => ⟨unit, cursor, stop⟩) ++ p.project source upperBound stop := by
  rw [Projector.project, if_pos inside, plain, if_neg Bool.false_ne_true, found]

theorem project_of_plain (inside : cursor < upperBound)
    (plain : p.escapesAt source upperBound cursor = false)
    (none : p.referenceAt source cursor upperBound = none) :
    p.project source upperBound cursor =
      projectUnits source cursor (if p.isPair source cursor then cursor + 2 else cursor + 1) cursor
          (if p.isPair source cursor then cursor + 2 else cursor + 1) ++
        p.project source upperBound (if p.isPair source cursor then cursor + 2 else cursor + 1) := by
  rw [Projector.project, if_pos inside, plain, if_neg Bool.false_ne_true, none]

theorem projectUnits_single {unit : α} {start stop : Nat} (there : source[cursor]? = some unit) :
    projectUnits source cursor (cursor + 1) start stop = [⟨unit, start, stop⟩] := by
  obtain ⟨short, rfl⟩ := List.getElem?_eq_some_iff.mp there
  unfold projectUnits
  rw [List.drop_take, List.drop_eq_getElem_cons short, Nat.add_sub_cancel_left]
  rfl

theorem project_single {unit : α} (inside : cursor < upperBound)
    (plain : p.escapesAt source upperBound cursor = false)
    (none : p.referenceAt source cursor upperBound = none) (single : p.isPair source cursor = false)
    (there : source[cursor]? = some unit) :
    p.project source upperBound cursor =
      ⟨unit, cursor, cursor + 1⟩ :: p.project source upperBound (cursor + 1) := by
  rw [project_of_plain inside plain none, single, if_neg Bool.false_ne_true, projectUnits_single there]
  rfl

theorem project_pair {unit next : α} (inside : cursor < upperBound)
    (plain : p.escapesAt source upperBound cursor = false)
    (none : p.referenceAt source cursor upperBound = none) (pair : p.isPair source cursor = true)
    (there : source[cursor]? = some unit) (there' : source[cursor + 1]? = some next) :
    p.project source upperBound cursor =
      ⟨unit, cursor, cursor + 2⟩ :: ⟨next, cursor, cursor + 2⟩ :: p.project source upperBound (cursor + 2) := by
  have two : (source.take (cursor + 2)).drop cursor = [unit, next] := by
    obtain ⟨short, rfl⟩ := List.getElem?_eq_some_iff.mp there
    obtain ⟨short', rfl⟩ := List.getElem?_eq_some_iff.mp there'
    rw [List.drop_take, List.drop_eq_getElem_cons short, List.drop_eq_getElem_cons short', Nat.add_sub_cancel_left]
    rfl
  rw [project_of_plain inside plain none, pair, if_pos rfl]
  unfold projectUnits
  rw [two]
  rfl

/-- A projector that reads a coding. -/
structure Reads (p : Projector α) (e : Coding α) : Prop where
  code : p.code = e.code
  punct : ∀ u, p.isPunct u = true ↔ ASCIIPunctuation (e.code u)
  silent : ∀ source cursor upperBound, standsAt e.code source cursor '&' = false →
    p.referenceAt source cursor upperBound = none
  single : ∀ source cursor u, source[cursor]? = some u → e.code u < 128 → p.isPair source cursor = false
  /-- A character beyond ASCII stands for itself. -/
  whole : ∀ text i c, text[i]? = some c → 128 ≤ c.toNat → ∃ own,
    p.project (e.encode text) (e.encode text).length (e.offset text i) =
      own ++ p.project (e.encode text) (e.encode text).length (e.offset text (i + 1)) ∧
    own.map ProjectedUnit.value = e.encodeChar c

theorem standsAt_char {char : Char} : standsAt Char.toNat text i char = true ↔ text[i]? = some char := by
  rw [standsAt_iff]
  constructor
  · rintro ⟨c, there, same⟩
    rw [there, Char.toNat_inj.mp same]
  · exact fun there => ⟨char, there, rfl⟩

theorem lt_of_punctuation {n : Nat} (is : ASCIIPunctuation n) : n < 128 := by
  have last : '~'.toNat = 126 := rfl
  have le := is.2.1
  omega

theorem escapesAt_encode (reads : Reads p e) (inside : i < text.length) :
    p.escapesAt (e.encode text) (e.encode text).length (e.offset text i) = true ↔ CharEscape text i := by
  unfold Projector.escapesAt CharEscape
  rw [reads.code, standsAt_encode (by decide) (Nat.le_of_lt inside), Bool.and_eq_true, Bool.and_eq_true,
    standsAt_char, decide_eq_true_eq, Option.any_eq_true]
  constructor
  · rintro ⟨⟨backslash, short⟩, unit, there, punct⟩
    obtain ⟨next, -⟩ := Coding.offset_succ (e := e) backslash (by decide)
    rw [← next] at there short
    rw [← Coding.offset_length, Coding.offset_lt_iff (Nat.le_refl _)] at short
    have there' := List.getElem?_eq_getElem short
    obtain ⟨u, is, same⟩ := Coding.exists_first (e := e) there'
    rw [there, Option.some_inj] at is
    have punct := (reads.punct unit).mp punct
    have small := lt_of_punctuation punct
    refine ⟨backslash, _, there', ?_⟩
    rcases same with same | large
    · rwa [← same, ← is]
    · rw [← is] at large
      omega
  · rintro ⟨backslash, c, there, punct⟩
    obtain ⟨next, -⟩ := Coding.offset_succ (e := e) backslash (by decide)
    obtain ⟨-, u, -, there', code⟩ := Coding.offset_succ (e := e) there (lt_of_punctuation punct)
    have short := (List.getElem?_eq_some_iff.mp there').1
    rw [← next]
    exact ⟨⟨backslash, short⟩, u, there', (reads.punct u).mpr (code ▸ punct)⟩

theorem image_escape (reads : Reads p e) (escape : CharEscape text i) (there : text[i + 1]? = some c)
    (small : c.toNat < 128)
    (image : Image e (e.offset text) chars (p.project (e.encode text) (e.encode text).length (e.offset text (i + 2)))) :
    Image e (e.offset text) (⟨c, i, i + 2⟩ :: chars)
      (p.project (e.encode text) (e.encode text).length (e.offset text i)) := by
  have inside := (List.getElem?_eq_some_iff.mp escape.1).1
  obtain ⟨next, -⟩ := Coding.offset_succ (e := e) escape.1 (by decide)
  obtain ⟨next', u, is, there', -⟩ := Coding.offset_succ (e := e) there small
  rw [project_of_escape ((escapesAt_encode reads inside).mpr escape), projectUnits_single (next ▸ there')]
  have stop : e.offset text i + 2 = e.offset text (i + 2) := by
    show _ = e.offset text (i + 1 + 1)
    omega
  rw [stop]
  exact .single is rfl rfl image

theorem plain_of_not_escape (reads : Reads p e) (inside : i < text.length) (plain : ¬CharEscape text i) :
    p.escapesAt (e.encode text) (e.encode text).length (e.offset text i) = false := by
  by_contra escape
  exact plain ((escapesAt_encode reads inside).mp (Bool.not_eq_false _ ▸ escape))

theorem offset_lt_length (inside : i < text.length) : e.offset text i < (e.encode text).length := by
  rw [← Coding.offset_length]
  exact Coding.offset_lt inside inside

theorem image_reference (reads : Reads p e) (inside : i < text.length) (plain : ¬CharEscape text i)
    {decoded : List Char}
    (found : p.referenceAt (e.encode text) (e.offset text i) (e.encode text).length =
      some (e.offset text j, e.encode decoded))
    (image : Image e (e.offset text) chars (p.project (e.encode text) (e.encode text).length (e.offset text j))) :
    Image e (e.offset text) (decoded.map (fun c => ⟨c, i, j⟩) ++ chars)
      (p.project (e.encode text) (e.encode text).length (e.offset text i)) := by
  rw [project_of_reference (offset_lt_length inside) (plain_of_not_escape reads inside plain) found]
  exact image.decoded decoded i j

theorem image_single (reads : Reads p e) (there : text[i]? = some c) (small : c.toNat < 128)
    (plain : ¬CharEscape text i)
    (none : p.referenceAt (e.encode text) (e.offset text i) (e.encode text).length = none)
    (image : Image e (e.offset text) chars (p.project (e.encode text) (e.encode text).length (e.offset text (i + 1)))) :
    Image e (e.offset text) (⟨c, i, i + 1⟩ :: chars)
      (p.project (e.encode text) (e.encode text).length (e.offset text i)) := by
  have inside := (List.getElem?_eq_some_iff.mp there).1
  obtain ⟨next, u, is, there', code⟩ := Coding.offset_succ (e := e) there small
  rw [project_single (offset_lt_length inside) (plain_of_not_escape reads inside plain) none
    (reads.single _ _ u there' (by omega)) there', ← next]
  exact .single is rfl rfl image

theorem image_whole (reads : Reads p e) (there : text[i]? = some c) (large : 128 ≤ c.toNat)
    (image : Image e (e.offset text) chars (p.project (e.encode text) (e.encode text).length (e.offset text (i + 1)))) :
    Image e (e.offset text) (⟨c, i, i + 1⟩ :: chars)
      (p.project (e.encode text) (e.encode text).length (e.offset text i)) := by
  obtain ⟨own, is, values⟩ := reads.whole text i c there large
  rw [is]
  exact .block large values image

theorem silent_encode (reads : Reads p e) (there : text[i]? = some c) (other : c ≠ '&') :
    p.referenceAt (e.encode text) (e.offset text i) (e.encode text).length = none := by
  refine reads.silent _ _ _ ?_
  rw [standsAt_encode (by decide) (Nat.le_of_lt (List.getElem?_eq_some_iff.mp there).1)]
  by_contra is
  have is := standsAt_char.mp (Bool.not_eq_false _ ▸ is)
  rw [there, Option.some_inj] at is
  exact other is

/-! ### The server and the web client -/

theorem plain_of_large (upperBound : Nat) {unit : α} (code : p.code = e.code) (there : source[cursor]? = some unit)
    (large : 128 ≤ e.code unit) :
    p.escapesAt source upperBound cursor = false ∧ standsAt e.code source cursor '&' = false := by
  have none : ∀ char : Char, char.toNat < 128 → standsAt e.code source cursor char = false := by
    intro char small
    by_contra is
    obtain ⟨unit', there', same⟩ := standsAt_iff.mp (Bool.not_eq_false _ ▸ is)
    rw [there, Option.some_inj] at there'
    rw [there'] at large
    omega
  refine ⟨?_, none '&' (by decide)⟩
  unfold Projector.escapesAt
  rw [code, none '\\' (by decide), Bool.false_and, Bool.false_and]

theorem silent_server (util : MarkdownUtil) (source : List UInt8) (cursor upperBound : Nat)
    (none : standsAt UInt8.toNat source cursor '&' = false) :
    (serverProjector util).referenceAt source cursor upperBound = .none := by
  have zero : characterReferenceLength util (source.drop cursor) = 0 := by
    unfold characterReferenceLength
    rw [standsAt_drop, none, Bool.not_false, Bool.or_true, if_pos rfl]
  unfold serverProjector
  dsimp only
  rw [zero, if_neg (Nat.lt_irrefl 0)]

theorem project_bytes (util : MarkdownUtil) {source' own rest : List UInt8} (parts : source'.drop cursor = own ++ rest)
    (large : ∀ u ∈ own, 128 ≤ u.toNat) :
    ∃ units : List (ProjectedUnit UInt8),
      (serverProjector util).project source' source'.length cursor =
        units ++ (serverProjector util).project source' source'.length (cursor + own.length) ∧
      units.map ProjectedUnit.value = own := by
  induction own generalizing cursor with
  | nil => exact ⟨[], rfl, rfl⟩
  | cons u own ih =>
      have there : source'[cursor]? = some u := by
        rw [← Nat.add_zero cursor, ← List.getElem?_drop, parts]
        rfl
      have inside := (List.getElem?_eq_some_iff.mp there).1
      have tail : source'.drop (cursor + 1) = own ++ rest := by
        rw [← List.drop_drop, parts]
        rfl
      obtain ⟨plain, none⟩ := plain_of_large (p := serverProjector util) (e := Coding.utf8)
        source'.length rfl there (large u List.mem_cons_self)
      obtain ⟨units, is, values⟩ := ih tail fun v mem => large v (List.mem_cons_of_mem u mem)
      refine ⟨⟨u, cursor, cursor + 1⟩ :: units, ?_, by rw [List.map_cons, values]⟩
      rw [project_single inside plain (silent_server util _ _ _ none) rfl there, is, List.length_cons,
        Nat.add_assoc, Nat.add_comm 1]
      rfl

theorem reads_server (util : MarkdownUtil) : Reads (serverProjector util) Coding.utf8 where
  code := rfl
  punct u := util.punctuation u
  silent := silent_server util
  single _ _ _ _ _ := rfl
  whole text i c there large := by
    have inside := (List.getElem?_eq_some_iff.mp there).1
    have parts : (Coding.utf8.encode text).drop (Coding.utf8.offset text i) =
        Coding.utf8.encodeChar c ++ Coding.utf8.encode (text.drop (i + 1)) := by
      rw [Coding.drop_offset, List.drop_eq_getElem_cons inside, Coding.encode_cons,
        (List.getElem?_eq_some_iff.mp there).2]
    obtain ⟨units, is, values⟩ := project_bytes util parts (Coding.utf8.other c large).2
    refine ⟨units, ?_, values⟩
    rw [is, Coding.offset_succ_add there]

theorem silent_web (decodeString : Utf16.Units → Utf16.Units) (source : Utf16.Units) (cursor upperBound : Nat)
    (none : standsAt UInt16.toNat source cursor '&' = false) :
    (webProjector decodeString).referenceAt source cursor upperBound = .none := by
  unfold webProjector decodedMarkdownCharacterReferenceAt
  dsimp only
  rw [none, Bool.not_false, if_pos rfl]

theorem reads_web (decodeString : Utf16.Units → Utf16.Units) :
    Reads (webProjector decodeString) Coding.utf16 where
  code := rfl
  punct u := decide_eq_true_iff
  silent := silent_web decodeString
  single source cursor u there small := by
    have small : u.toNat < 128 := small
    have notHigh : Utf16.isHigh u = false := by
      unfold Utf16.isHigh
      rw [Bool.and_eq_false_iff]
      exact .inl (decide_eq_false (by omega))
    unfold webProjector
    dsimp only
    rw [there, Option.any_some, notHigh, Bool.false_and]
  whole text i c there large := by
    have inside := (List.getElem?_eq_some_iff.mp there).1
    have parts : (Coding.utf16.encode text).drop (Coding.utf16.offset text i) =
        Utf16.encodeChar c ++ Coding.utf16.encode (text.drop (i + 1)) := by
      rw [Coding.drop_offset, List.drop_eq_getElem_cons inside, Coding.encode_cons,
        (List.getElem?_eq_some_iff.mp there).2]
      rfl
    have unitAt (k : Nat) : (Coding.utf16.encode text)[Coding.utf16.offset text i + k]? =
        (Utf16.encodeChar c ++ Coding.utf16.encode (text.drop (i + 1)))[k]? := by
      rw [← List.getElem?_drop, parts]
    have next : Coding.utf16.offset text (i + 1) = Coding.utf16.offset text i + (Utf16.encodeChar c).length :=
      Coding.offset_succ_add there
    have within := offset_lt_length (e := Coding.utf16) inside
    have first := unitAt 0
    have second := unitAt 1
    rw [Nat.add_zero] at first
    have allLarge : ∀ u ∈ Utf16.encodeChar c, 128 ≤ u.toNat := (Coding.utf16.other c large).2
    rcases Utf16.encodeChar_cases c with ⟨u, is, notHigh⟩ | ⟨high, low, is, isHigh, isLow⟩
    · rw [is] at first next allLarge
      obtain ⟨plain, none⟩ := plain_of_large (p := webProjector decodeString) (e := Coding.utf16)
        (Coding.utf16.encode text).length rfl first (allLarge u List.mem_cons_self)
      have alone : (webProjector decodeString).isPair (Coding.utf16.encode text) (Coding.utf16.offset text i) =
          false := by
        unfold webProjector
        dsimp only
        rw [first]
        exact (congrArg (· && _) notHigh).trans (Bool.false_and _)
      refine ⟨[⟨u, Coding.utf16.offset text i, Coding.utf16.offset text i + 1⟩], ?_, is.symm⟩
      rw [project_single within plain (silent_web decodeString _ _ _ none) alone first, next]
      rfl
    · rw [is] at first second next allLarge
      obtain ⟨plain, none⟩ := plain_of_large (p := webProjector decodeString) (e := Coding.utf16)
        (Coding.utf16.encode text).length rfl first (allLarge high List.mem_cons_self)
      have pair : (webProjector decodeString).isPair (Coding.utf16.encode text) (Coding.utf16.offset text i) =
          true := by
        unfold webProjector
        dsimp only
        rw [first, second]
        exact Bool.and_eq_true_iff.mpr ⟨isHigh, isLow⟩
      refine ⟨[⟨high, Coding.utf16.offset text i, Coding.utf16.offset text i + 2⟩,
        ⟨low, Coding.utf16.offset text i, Coding.utf16.offset text i + 2⟩], ?_, is.symm⟩
      rw [project_pair within plain (silent_web decodeString _ _ _ none) pair first second, next]
      rfl

/-! ### The projection -/

section Sides

variable {β : Type} {e' : Coding β} {p' : Projector β}

/-- Two sides find the same character reference at a position, or both find none. -/
def SameReference (p : Projector α) (e : Coding α) (p' : Projector β) (e' : Coding β) (text : List Char)
    (i : Nat) : Prop :=
  (p.referenceAt (e.encode text) (e.offset text i) (e.encode text).length = none ∧
      p'.referenceAt (e'.encode text) (e'.offset text i) (e'.encode text).length = none) ∨
    ∃ j decoded, i < j ∧ j ≤ text.length ∧ text[j - 1]? ≠ some '\\' ∧
      p.referenceAt (e.encode text) (e.offset text i) (e.encode text).length =
        some (e.offset text j, e.encode decoded) ∧
      p'.referenceAt (e'.encode text) (e'.offset text i) (e'.encode text).length =
        some (e'.offset text j, e'.encode decoded)

/-- The spellings of the characters are in order, in the text from `i` on. -/
structure Placed (text : List Char) (i : Nat) (chars : List (ProjectedUnit Char)) : Prop where
  inside : ∀ x ∈ chars, i ≤ x.start ∧ x.start < x.stop ∧ x.stop ≤ text.length
  ordered : chars.Pairwise fun x y => x.start ≤ y.start ∧ x.stop ≤ y.stop

theorem Placed.append (placed : Placed text j chars) (lt : i < j) (le : j ≤ text.length) (decoded : List Char) :
    Placed text i (decoded.map (fun c => ⟨c, i, j⟩) ++ chars) := by
  constructor
  · intro x mem
    rcases List.mem_append.mp mem with own | mem
    · obtain ⟨c, -, rfl⟩ := List.mem_map.mp own
      exact ⟨Nat.le_refl i, lt, le⟩
    · obtain ⟨after, rest⟩ := placed.inside x mem
      exact ⟨by omega, rest⟩
  · refine List.pairwise_append.mpr ⟨?_, placed.ordered, fun x own y mem => ?_⟩
    · exact List.pairwise_map.mpr (List.pairwise_of_forall fun _ _ => ⟨Nat.le_refl i, Nat.le_refl j⟩)
    · obtain ⟨c, -, rfl⟩ := List.mem_map.mp own
      obtain ⟨after, some, -⟩ := placed.inside y mem
      exact ⟨by dsimp only; omega, by dsimp only; omega⟩

/-- Where the references are decoded alike, the decoded texts are one text in two codings. -/
theorem exists_image (reads : Reads p e) (reads' : Reads p' e')
    (alike : ∀ i, text[i]? = some '&' → ¬Escaped (CharEscape text) i → SameReference p e p' e' text i)
    (inside : i ≤ text.length) (clear : ¬Escaped (CharEscape text) i) :
    ∃ chars, Image e (e.offset text) chars (p.project (e.encode text) (e.encode text).length (e.offset text i)) ∧
      Image e' (e'.offset text) chars (p'.project (e'.encode text) (e'.encode text).length (e'.offset text i)) ∧
      Placed text i chars := by
  induction left : text.length - i using Nat.strong_induction_on generalizing i with
  | _ left ih =>
  rcases Nat.eq_or_lt_of_le inside with rfl | lt
  · refine ⟨[], ?_, ?_, fun x mem => absurd mem List.not_mem_nil, .nil⟩
    · rw [Coding.offset_length, Projector.project, if_neg (Nat.lt_irrefl _)]
      exact .nil
    · rw [Coding.offset_length, Projector.project, if_neg (Nat.lt_irrefl _)]
      exact .nil
  · have there := List.getElem?_eq_getElem lt
    by_cases escape : CharEscape text i
    · obtain ⟨c, there', punct⟩ := escape.2
      have short := (List.getElem?_eq_some_iff.mp there').1
      have small := lt_of_punctuation punct
      obtain ⟨chars, image, image', placed⟩ := ih (text.length - (i + 2)) (by omega) (i := i + 2) (by omega)
        (fun escaped => escaped.2 ⟨escape, clear⟩) rfl
      exact ⟨_, image_escape reads escape there' small image, image_escape reads' escape there' small image',
        placed.append (by omega) (by omega) [c]⟩
    · have next : ¬Escaped (CharEscape text) (i + 1) := fun escaped => escape escaped.1
      obtain ⟨chars, image, image', placed⟩ := ih (text.length - (i + 1)) (by omega) (i := i + 1) lt next rfl
      have placed' := placed.append (Nat.lt_succ_self i) lt [text[i]]
      by_cases small : text[i].toNat < 128
      · by_cases amp : text[i] = '&'
        · rcases alike i (amp ▸ there) clear with ⟨none, none'⟩ | ⟨j, decoded, after, within, ends, found, found'⟩
          · exact ⟨_, image_single reads there small escape none image,
              image_single reads' there small escape none' image', placed'⟩
          · obtain ⟨j, rfl⟩ : ∃ k, j = k + 1 := ⟨j - 1, by omega⟩
            obtain ⟨chars, image, image', placed⟩ := ih (text.length - (j + 1)) (by omega) (i := j + 1) within
              (fun escaped => ends escaped.1.1) rfl
            exact ⟨_, image_reference reads lt escape found image, image_reference reads' lt escape found' image',
              placed.append after within decoded⟩
        · exact ⟨_, image_single reads there small escape (silent_encode reads there amp) image,
            image_single reads' there small escape (silent_encode reads' there amp) image', placed'⟩
      · have large := Nat.le_of_not_lt small
        exact ⟨_, image_whole reads there large image, image_whole reads' there large image', placed'⟩

end Sides

/-! ### A run within a longer source -/

/-- A unit of the decoded text, with its spelling further on. -/
def ProjectedUnit.shift (k : Nat) (x : ProjectedUnit α) : ProjectedUnit α := ⟨x.value, k + x.start, k + x.stop⟩

theorem Image.shift (image : Image e place chars units) (k : Nat) :
    Image e (fun i => k + place i) chars (units.map (ProjectedUnit.shift k)) := by
  induction image with
  | nil => exact .nil
  | single unit start stop _ ih => exact .single unit (congrArg (k + ·) start) (congrArg (k + ·) stop) ih
  | block large values _ ih =>
      rw [List.map_append]
      refine .block large ?_ ih
      rw [List.map_map]
      exact values

variable {front run back : Utf16.Units}

theorem getElem?_within (inside : cursor < run.length) :
    (front ++ run ++ back)[front.length + cursor]? = run[cursor]? := by
  rw [List.append_assoc, List.getElem?_append_right (Nat.le_add_right _ _), Nat.add_sub_cancel_left,
    List.getElem?_append_left inside]

theorem slice_within (first : Nat) {last : Nat} (inside : last ≤ run.length) :
    ((front ++ run ++ back).take (front.length + last)).drop (front.length + first) =
      (run.take last).drop first := by
  rw [List.append_assoc, List.take_length_add_append, List.take_append_of_le_length inside,
    List.drop_length_add_append]

theorem decodedMarkdownCharacterReferenceAt_within (front back : Utf16.Units) (decodeString : Utf16.Units → Utf16.Units)
    (inside : cursor < run.length) :
    decodedMarkdownCharacterReferenceAt decodeString (front ++ run ++ back) (front.length + cursor)
        (front.length + run.length) =
      (decodedMarkdownCharacterReferenceAt decodeString run cursor run.length).map fun m =>
        (front.length + m.1, m.2) := by
  have sign : standsAt UInt16.toNat (front ++ run ++ back) (front.length + cursor) '&' =
      standsAt UInt16.toNat run cursor '&' := by
    unfold standsAt
    rw [getElem?_within inside]
  have window : ((front ++ run ++ back).take
        (min (front.length + run.length) (front.length + cursor + 35))).drop (front.length + cursor) =
      (run.take (min run.length (cursor + 35))).drop cursor := by
    have bound : min (front.length + run.length) (front.length + cursor + 35) =
        front.length + min run.length (cursor + 35) := by omega
    rw [bound, slice_within cursor (Nat.min_le_left _ _)]
  unfold decodedMarkdownCharacterReferenceAt
  dsimp only
  rw [sign, window]
  split
  · rfl
  · split
    · rfl
    · split
      · rfl
      · rw [Option.map_some, Nat.add_assoc]

theorem escapesAt_within (decodeString : Utf16.Units → Utf16.Units) (inside : cursor < run.length) :
    (webProjector decodeString).escapesAt (front ++ run ++ back) (front.length + run.length)
        (front.length + cursor) =
      (webProjector decodeString).escapesAt run run.length cursor := by
  unfold Projector.escapesAt standsAt
  rw [getElem?_within inside]
  by_cases next : cursor + 1 < run.length
  · rw [Nat.add_assoc, getElem?_within next, decide_eq_true (Nat.add_lt_add_left next front.length),
      decide_eq_true next]
  · rw [decide_eq_false next, decide_eq_false (by omega), Bool.and_false, Bool.false_and, Bool.false_and]

/-- The last unit of a run is in no pair with a unit behind it. -/
theorem isPair_within (front back : Utf16.Units) (decodeString : Utf16.Units → Utf16.Units)
    (last : ∀ unit ∈ run.getLast?, Utf16.isHigh unit = false) (inside : cursor < run.length) :
    (webProjector decodeString).isPair (front ++ run ++ back) (front.length + cursor) =
        (webProjector decodeString).isPair run cursor ∧
      ((webProjector decodeString).isPair run cursor = true → cursor + 2 ≤ run.length) := by
  unfold webProjector
  dsimp only
  rw [getElem?_within inside]
  by_cases next : cursor + 1 < run.length
  · rw [Nat.add_assoc, getElem?_within next]
    exact ⟨rfl, fun _ => next⟩
  · have final : run[cursor]?.any Utf16.isHigh = false := by
      have place : cursor = run.length - 1 := by omega
      rw [place, ← List.getLast?_eq_getElem?]
      cases there : run.getLast? with
      | none => rfl
      | some unit => exact last unit there
    rw [final, Bool.false_and, Bool.false_and]
    exact ⟨rfl, fun pair => by cases pair⟩

theorem projectUnits_within {first last start stop : Nat} (inside : last ≤ run.length) :
    projectUnits (front ++ run ++ back) (front.length + first) (front.length + last) (front.length + start)
        (front.length + stop) =
      (projectUnits run first last start stop).map (ProjectedUnit.shift front.length) := by
  unfold projectUnits
  rw [slice_within first inside, List.map_map]
  rfl

theorem project_within (front back : Utf16.Units) (decodeString : Utf16.Units → Utf16.Units)
    (last : ∀ unit ∈ run.getLast?, Utf16.isHigh unit = false) (cursor : Nat) :
    (webProjector decodeString).project (front ++ run ++ back) (front.length + run.length) (front.length + cursor) =
      ((webProjector decodeString).project run run.length cursor).map (ProjectedUnit.shift front.length) := by
  induction cursor using Projector.project.induct (webProjector decodeString) run run.length with
  | case1 cursor inside escape ih =>
      rw [project_of_escape escape, project_of_escape ((escapesAt_within decodeString inside).trans escape),
        List.map_append, ← projectUnits_within (lt_of_escapesAt escape)]
      exact congrArg _ ih
  | case2 cursor inside plain stop decoded found ih =>
      have plain := Bool.not_eq_true _ ▸ plain
      have found' : (webProjector decodeString).referenceAt (front ++ run ++ back) (front.length + cursor)
          (front.length + run.length) = some (front.length + stop, decoded) :=
        (decodedMarkdownCharacterReferenceAt_within front back decodeString inside).trans (congrArg _ found)
      rw [project_of_reference inside plain found, project_of_reference (Nat.add_lt_add_left inside _)
        ((escapesAt_within decodeString inside).trans plain) found', List.map_append, List.map_map, ih]
      rfl
  | case3 cursor inside plain none stop ih =>
      have plain := Bool.not_eq_true _ ▸ plain
      have none' : (webProjector decodeString).referenceAt (front ++ run ++ back) (front.length + cursor)
          (front.length + run.length) = .none :=
        (decodedMarkdownCharacterReferenceAt_within front back decodeString inside).trans (congrArg _ none)
      obtain ⟨same, fits⟩ := isPair_within front back decodeString last inside
      rw [project_of_plain inside plain none, project_of_plain (Nat.add_lt_add_left inside _)
        ((escapesAt_within decodeString inside).trans plain) none', same]
      have bound : stop ≤ run.length := by
        show (if _ then _ else _) ≤ _
        split
        next pair => exact fits pair
        next => exact inside
      have place : (if (webProjector decodeString).isPair run cursor then front.length + cursor + 2
          else front.length + cursor + 1) = front.length + stop := by
        show _ = _ + (if _ then _ else _)
        split
        · rfl
        · rfl
      rw [place, projectUnits_within bound, ih, ← List.map_append]
      rfl
  | case4 cursor outside =>
      rw [Projector.project, if_neg (by omega), Projector.project, if_neg outside]
      rfl

theorem not_isHigh_of_last (text : List Char) :
    ∀ unit ∈ (Coding.utf16.encode text).getLast?, Utf16.isHigh unit = false := by
  cases text using List.reverseRecOn with
  | nil => exact fun unit mem => by cases mem
  | append_singleton text c =>
      intro unit mem
      rw [Coding.encode_append, Coding.encode_cons, Coding.encode_nil, List.append_nil] at mem
      rcases Utf16.encodeChar_cases c with ⟨u, is, notHigh⟩ | ⟨high, low, is, -, isLow⟩
      · have is : Coding.utf16.encodeChar c = [u] := is
        rw [is, List.getLast?_concat] at mem
        cases mem
        exact notHigh
      · have is : Coding.utf16.encodeChar c = [high] ++ [low] := is
        rw [is, ← List.append_assoc, List.getLast?_concat] at mem
        cases mem
        unfold Utf16.isLow at isLow
        unfold Utf16.isHigh
        simp only [Bool.and_eq_true, decide_eq_true_eq] at isLow
        rw [Bool.and_eq_false_iff]
        exact .inr (decide_eq_false (by omega))

end Memos.Markdown.GfmEmail

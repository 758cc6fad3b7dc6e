/-
Templates of letters and named holes.

A template is written with each name between two marks.  Filling it puts a value in the
place of every hole at once; a program that works on the text replaces one name after the
other wherever it is written.  The two agree as long as no value has a mark in it: then the
text is that of a template after each replacement, and nothing that was put in is taken for
a hole.

The letters are of any type, with two of them for the marks.
-/
import Memos.Lib.Find

namespace Template

open Find

inductive Piece (α : Type*) where
  | letter (a : α)
  | hole (name : List α)
  deriving DecidableEq

variable {α : Type*}

def marked (left right : α) (name : List α) : List α := left :: (name ++ [right])

def pieceText (left right : α) : Piece α → List α
  | .letter a => [a]
  | .hole name => marked left right name

def render (left right : α) (pieces : List (Piece α)) : List α := pieces.flatMap (pieceText left right)

def pieceFill (value : List α → List α) : Piece α → List α
  | .letter a => [a]
  | .hole name => value name

/-- The template with a value in the place of each hole. -/
def fill (value : List α → List α) (pieces : List (Piece α)) : List α :=
  pieces.flatMap (pieceFill value)

def pieceName : Piece α → Option (List α)
  | .letter _ => none
  | .hole name => some name

def names (pieces : List (Piece α)) : List (List α) := pieces.filterMap pieceName

def letters (text : List α) : List (Piece α) := text.map .letter

structure Unmarked (left right : α) (text : List α) : Prop where
  left : left ∉ text
  right : right ∉ text

/-- The marks are in no name, and no letter is one. -/
structure WellFormed (left right : α) (pieces : List (Piece α)) : Prop where
  letter : ∀ a, .letter a ∈ pieces → a ≠ left ∧ a ≠ right
  name : ∀ name, .hole name ∈ pieces → Unmarked left right name

section Text

variable {left right : α} {pieces rest : List (Piece α)} {value : List α → List α} {a : α}
  {name text : List α}

@[simp] theorem render_nil : render left right [] = [] := rfl

@[simp] theorem render_letter :
    render left right (.letter a :: pieces) = a :: render left right pieces := rfl

theorem render_hole : render left right (.hole name :: pieces) =
    left :: (name ++ right :: render left right pieces) := by
  rw [render, List.flatMap_cons, pieceText, marked, List.cons_append, List.append_assoc]
  rfl

theorem render_append :
    render left right (pieces ++ rest) = render left right pieces ++ render left right rest :=
  List.flatMap_append

theorem render_letters : render left right (letters text) = text := by
  induction text with
  | nil => rfl
  | cons a text ih => exact congrArg (a :: ·) ih

@[simp] theorem fill_nil : fill value [] = [] := rfl

@[simp] theorem fill_letter : fill value (.letter a :: pieces) = a :: fill value pieces := rfl

@[simp] theorem fill_hole : fill value (.hole name :: pieces) = value name ++ fill value pieces := rfl

theorem fill_append : fill value (pieces ++ rest) = fill value pieces ++ fill value rest :=
  List.flatMap_append

theorem fill_letters : fill value (letters text) = text := by
  induction text with
  | nil => rfl
  | cons a text ih => exact congrArg (a :: ·) ih

@[simp] theorem names_nil : names ([] : List (Piece α)) = [] := rfl

@[simp] theorem names_letter : names (.letter a :: pieces) = names pieces := rfl

@[simp] theorem names_hole : names (.hole name :: pieces) = name :: names pieces := rfl

theorem names_append : names (pieces ++ rest) = names pieces ++ names rest := List.filterMap_append

@[simp] theorem names_letters : names (letters text) = [] := by
  induction text with
  | nil => rfl
  | cons a text ih => exact ih

theorem mem_names : name ∈ names pieces ↔ .hole name ∈ pieces := by
  unfold names
  rw [List.mem_filterMap]
  constructor
  · intro ⟨piece, mem, same⟩
    cases piece with
    | letter a => cases same
    | hole other =>
        injection same with same
        exact same ▸ mem
  · intro mem
    exact ⟨.hole name, mem, rfl⟩

theorem fill_congr {value' : List α → List α} (same : ∀ name ∈ names pieces, value name = value' name) :
    fill value pieces = fill value' pieces := by
  induction pieces with
  | nil => rfl
  | cons piece pieces ih =>
      cases piece with
      | letter a => exact congrArg (a :: ·) (ih same)
      | hole name =>
          rw [names_hole, List.forall_mem_cons] at same
          rw [fill_hole, fill_hole, same.1, ih same.2]

theorem WellFormed.of_cons {piece : Piece α} (wf : WellFormed left right (piece :: pieces)) :
    WellFormed left right pieces :=
  ⟨fun a mem => wf.letter a (List.mem_cons_of_mem _ mem),
    fun name mem => wf.name name (List.mem_cons_of_mem _ mem)⟩

theorem WellFormed.of_append (wf : WellFormed left right (pieces ++ rest)) :
    WellFormed left right pieces ∧ WellFormed left right rest :=
  ⟨⟨fun a mem => wf.letter a (List.mem_append_left _ mem),
      fun name mem => wf.name name (List.mem_append_left _ mem)⟩,
    ⟨fun a mem => wf.letter a (List.mem_append_right _ mem),
      fun name mem => wf.name name (List.mem_append_right _ mem)⟩⟩

theorem WellFormed.append (wf : WellFormed left right pieces) (wf' : WellFormed left right rest) :
    WellFormed left right (pieces ++ rest) :=
  ⟨fun a mem => (List.mem_append.mp mem).elim (wf.letter a) (wf'.letter a),
    fun name mem => (List.mem_append.mp mem).elim (wf.name name) (wf'.name name)⟩

theorem wellFormed_letters (unmarked : Unmarked left right text) :
    WellFormed left right (letters text) := by
  refine ⟨fun a mem => ?_, fun name mem => ?_⟩
  · obtain ⟨b, here, same⟩ := List.mem_map.mp mem
    injection same with same
    subst same
    exact ⟨fun eq => unmarked.left (eq ▸ here), fun eq => unmarked.right (eq ▸ here)⟩
  · obtain ⟨b, -, same⟩ := List.mem_map.mp mem
    cases same

theorem render_of_names_eq_nil (none : names pieces = []) :
    render left right pieces = fill value pieces := by
  induction pieces with
  | nil => rfl
  | cons piece pieces ih =>
      cases piece with
      | letter a => exact congrArg (a :: ·) (ih none)
      | hole name => cases none

/-- The first name that is written ends at the first right mark. -/
theorem name_unique {name' text' : List α} (free : right ∉ name) (free' : right ∉ name')
    (same : name ++ right :: text = name' ++ right :: text') : name = name' := by
  induction name generalizing name' with
  | nil =>
      cases name' with
      | nil => rfl
      | cons b name' =>
          injection same with same
          exact absurd (same ▸ List.mem_cons_self) free'
  | cons b name ih =>
      cases name' with
      | nil =>
          injection same with same
          exact absurd (same ▸ List.mem_cons_self) free
      | cons c name' =>
          injection same with first same
          rw [List.mem_cons, not_or] at free free'
          rw [first, ih free.2 free'.2 same]

end Text

/-! ### Replacing a name in the text -/

section Replace

variable [DecidableEq α] {left right : α} {pieces rest : List (Piece α)} {value : List α → List α}
  {name text : List α}

/-- The letters of a text in the place of a hole. -/
def put (name text : List α) (pieces : List (Piece α)) : List (Piece α) :=
  pieces.flatMap fun piece => if piece = .hole name then letters text else [piece]

theorem put_cons_of_eq : put name text (.hole name :: pieces) = letters text ++ put name text pieces := by
  rw [put, List.flatMap_cons, if_pos rfl]
  rfl

theorem put_cons_of_ne {piece : Piece α} (other : piece ≠ .hole name) :
    put name text (piece :: pieces) = piece :: put name text pieces := by
  rw [put, List.flatMap_cons, if_neg other]
  rfl

theorem names_put : names (put name text pieces) = (names pieces).filter fun other => other ≠ name := by
  induction pieces with
  | nil => rfl
  | cons piece pieces ih =>
      cases piece with
      | letter a =>
          rw [put_cons_of_ne (by simp), names_letter, names_letter, ih]
      | hole other =>
          by_cases same : other = name
          · subst same
            rw [put_cons_of_eq, names_append, names_letters, names_hole, ih]
            simp
          · rw [put_cons_of_ne (by simpa using same), names_hole, names_hole, ih]
            simp [same]

theorem fill_put : fill value (put name (value name) pieces) = fill value pieces := by
  induction pieces with
  | nil => rfl
  | cons piece pieces ih =>
      by_cases same : piece = .hole name
      · rw [same, put_cons_of_eq, fill_append, fill_letters, fill_hole, ih]
      · rw [put_cons_of_ne same]
        cases piece with
        | letter a => exact congrArg (a :: ·) ih
        | hole other => exact congrArg (value other ++ ·) ih

theorem WellFormed.put (wf : WellFormed left right pieces) (unmarked : Unmarked left right text) :
    WellFormed left right (put name text pieces) := by
  induction pieces with
  | nil => exact wf
  | cons piece pieces ih =>
      by_cases same : piece = .hole name
      · rw [same, put_cons_of_eq]
        exact (wellFormed_letters unmarked).append (ih wf.of_cons)
      · rw [put_cons_of_ne same]
        refine ⟨fun a mem => ?_, fun other mem => ?_⟩
        · obtain here | there := List.mem_cons.mp mem
          · exact wf.letter a (here ▸ List.mem_cons_self)
          · exact (ih wf.of_cons).letter a there
        · obtain here | there := List.mem_cons.mp mem
          · exact wf.name other (here ▸ List.mem_cons_self)
          · exact (ih wf.of_cons).name other there

/-- Replacing a name in the text puts the other text in its holes, and nowhere else. -/
theorem replaceAll_render (apart : left ≠ right) (wf : WellFormed left right pieces)
    (unmarked : Unmarked left right name) :
    replaceAll (marked left right name) text (render left right pieces) =
      render left right (put name text pieces) := by
  induction pieces with
  | nil => rfl
  | cons piece pieces ih =>
      have ih := ih wf.of_cons
      cases piece with
      | letter a =>
          have other := (wf.letter a List.mem_cons_self).1
          rw [put_cons_of_ne (by simp), render_letter, render_letter, marked,
            replaceAll_cons fun pre => other (List.cons_prefix_cons.mp pre).1.symm, ← marked, ih]
      | hole other =>
          have plain := wf.name other List.mem_cons_self
          by_cases same : other = name
          · subst same
            have split : render left right (.hole other :: pieces) =
                marked left right other ++ render left right pieces := rfl
            have some : marked left right other ≠ [] := List.cons_ne_nil _ _
            rw [put_cons_of_eq, render_append, render_letters, split, replaceAll_word some, ih]
          · have not_here : ¬marked left right name <+:
                left :: (other ++ right :: render left right pieces) := by
              intro pre
              obtain ⟨rest, eq⟩ := (List.cons_prefix_cons.mp pre).2
              rw [List.append_assoc] at eq
              exact same (name_unique plain.right unmarked.right eq.symm)
            have inside : left ∉ other ++ [right] := by
              rw [List.mem_append, List.mem_singleton, not_or]
              exact ⟨plain.left, apart⟩
            have flat : other ++ right :: render left right pieces =
                (other ++ [right]) ++ render left right pieces := by
              rw [List.append_assoc]
              rfl
            rw [put_cons_of_ne (by simpa using same), render_hole, render_hole,
              replaceAll_cons not_here, flat, marked, replaceAll_append_of_not_mem inside, ← marked, ih,
              List.append_assoc]
            rfl

/-- Names that are replaced one after the other are all filled, each with its own value. -/
theorem foldl_replaceAll_render (apart : left ≠ right) (wf : WellFormed left right pieces)
    {order : List (List α)} (all : ∀ name ∈ names pieces, name ∈ order)
    (plain : ∀ name ∈ order, Unmarked left right name ∧ Unmarked left right (value name)) :
    order.foldl (fun text name => replaceAll (marked left right name) (value name) text)
      (render left right pieces) = fill value pieces := by
  induction order generalizing pieces with
  | nil =>
      refine render_of_names_eq_nil (List.eq_nil_iff_forall_not_mem.mpr fun name mem => ?_)
      cases all name mem
  | cons name order ih =>
      have here := plain name List.mem_cons_self
      rw [List.foldl_cons, replaceAll_render apart wf here.1]
      rw [ih (wf.put here.2) ?_ fun other mem => plain other (List.mem_cons_of_mem _ mem), fill_put]
      intro other mem
      rw [names_put, List.mem_filter] at mem
      obtain same | there := List.mem_cons.mp (all other mem.1)
      · simp [same] at mem
      · exact there

end Replace

/-! ### Finding a name in the text -/

section Index

variable {left right : α} {pieces before after : List (Piece α)} {name text : List α}

theorem take_text : (text ++ render left right after).take text.length = text := List.take_left

theorem drop_text :
    (text ++ render left right after).drop text.length = render left right after := List.drop_left

theorem hole_slice :
    ((text ++ render left right (.hole name :: after)).take (text.length + (name.length + 1))).drop
      (text.length + 1) = name := by
  rw [List.take_length_add_append, render_hole, List.take_succ_cons, List.take_left,
    List.drop_length_add_append, List.drop_succ_cons, List.drop_zero]

theorem hole_rest :
    (text ++ render left right (.hole name :: after)).drop (text.length + (name.length + 1) + 1) =
      render left right after := by
  rw [Nat.add_assoc, List.drop_length_add_append, render_hole, List.drop_succ_cons,
    List.drop_length_add_append, List.drop_succ_cons, List.drop_zero]

/-- A beginning without marks is one of letters. -/
theorem eq_letters_append (free : left ∉ text) (pre : text <+: render left right pieces) :
    ∃ rest, pieces = letters text ++ rest := by
  induction text generalizing pieces with
  | nil => exact ⟨pieces, rfl⟩
  | cons a text ih =>
      rw [List.mem_cons, not_or] at free
      cases pieces with
      | nil => exact absurd (List.prefix_nil.mp pre) (List.cons_ne_nil _ _)
      | cons piece pieces =>
          cases piece with
          | letter b =>
              obtain ⟨rfl, tail⟩ := List.cons_prefix_cons.mp pre
              obtain ⟨rest, rfl⟩ := ih free.2 tail
              exact ⟨rest, rfl⟩
          | hole name =>
              rw [render_hole] at pre
              exact absurd (List.cons_prefix_cons.mp pre).1.symm free.1

theorem standsAt_marked {i : Nat} (apart : left ≠ right) (wf : WellFormed left right pieces)
    (free : right ∉ name)
    (stands : StandsAt (marked left right name) (render left right pieces) i) :
    ∃ before after, pieces = before ++ .hole name :: after ∧ i = (render left right before).length := by
  induction pieces generalizing i with
  | nil =>
      rw [StandsAt, render_nil, List.drop_nil] at stands
      exact absurd (List.prefix_nil.mp stands) (List.cons_ne_nil _ _)
  | cons piece pieces ih =>
      cases piece with
      | letter a =>
          cases i with
          | zero =>
              have same := (List.cons_prefix_cons.mp stands).1
              exact absurd same.symm (wf.letter a List.mem_cons_self).1
          | succ i =>
              obtain ⟨before, after, rfl, rfl⟩ := ih wf.of_cons stands
              exact ⟨.letter a :: before, after, rfl, rfl⟩
      | hole other =>
          have plain := wf.name other List.mem_cons_self
          by_cases first : i = 0
          · subst first
            rw [StandsAt, List.drop_zero, render_hole] at stands
            obtain ⟨rest, eq⟩ := (List.cons_prefix_cons.mp stands).2
            rw [List.append_assoc] at eq
            rw [← name_unique plain.right free eq.symm]
            exact ⟨[], pieces, rfl, rfl⟩
          · have split : render left right (.hole other :: pieces) =
                marked left right other ++ render left right pieces := rfl
            rw [split] at stands
            by_cases inside : i < (marked left right other).length
            · have here := stands.getElem? (j := 0) (Nat.zero_lt_succ _)
              rw [Nat.add_zero, List.getElem?_append_left inside] at here
              obtain ⟨j, rfl⟩ := Nat.exists_eq_succ_of_ne_zero first
              have mem : left ∈ other ++ [right] := List.mem_of_getElem? here
              rw [List.mem_append, List.mem_singleton] at mem
              exact (mem.elim plain.left apart).elim
            · obtain ⟨j, rfl⟩ := Nat.exists_eq_add_of_le (Nat.not_lt.mp inside)
              rw [StandsAt, List.drop_append, List.drop_eq_nil_of_le (by omega), List.nil_append,
                Nat.add_sub_cancel_left] at stands
              obtain ⟨before, after, rfl, rfl⟩ := ih wf.of_cons stands
              exact ⟨.hole other :: before, after, rfl, (List.length_append).symm⟩

/-- In a template that names its holes once, a hole is at one place. -/
theorem hole_unique {before' after' : List (Piece α)}
    (nodup : (names (before ++ .hole name :: after)).Nodup)
    (same : before ++ .hole name :: after = before' ++ .hole name :: after') : before = before' := by
  rw [names_append, names_hole, List.nodup_append] at nodup
  have first : .hole name ∉ before := fun mem =>
    nodup.2.2 name (mem_names.mpr mem) name List.mem_cons_self rfl
  have last : .hole name ∉ after := fun mem =>
    (List.nodup_cons.mp nodup.2.1).1 (mem_names.mpr mem)
  exact ((List.append_cons_inj_of_notMem first last).mp same).1

/-- Where a letter and the name are written, the name is that of the hole. -/
theorem standsAt_letter_marked {a : α} {i : Nat} (apart : left ≠ right)
    (wf : WellFormed left right (before ++ .hole name :: after))
    (nodup : (names (before ++ .hole name :: after)).Nodup)
    (stands : StandsAt (a :: marked left right name)
      (render left right (before ++ .hole name :: after)) i) :
    i + 1 = (render left right before).length := by
  have plain := wf.name name (List.mem_append_right _ List.mem_cons_self)
  have later : StandsAt (marked left right name)
      (render left right (before ++ .hole name :: after)) (i + 1) := by
    obtain ⟨rest, eq⟩ := stands
    refine ⟨rest, ?_⟩
    rw [← List.drop_drop, ← eq]
    rfl
  obtain ⟨before', after', split, place⟩ := standsAt_marked apart wf plain.right later
  rw [hole_unique nodup split, place]

variable [DecidableEq α]

/-- The first hole after plain text. -/
theorem index_left_append (free : left ∉ text) :
    index [left] (text ++ render left right (.hole name :: after)) = some text.length := by
  rw [render_hole]
  exact index_singleton_append free

theorem index_left_none (free : left ∉ text) : index [left] text = none :=
  index_singleton_of_not_mem free

theorem index_right_hole (apart : left ≠ right) (free : right ∉ name) :
    index [right] (render left right (.hole name :: after)) = some (name.length + 1) := by
  have none : right ∉ left :: name := by
    rw [List.mem_cons, not_or]
    exact ⟨apart.symm, free⟩
  rw [render_hole]
  exact index_singleton_append none

/-- A letter and a hole after it, in a template that names the hole once. -/
theorem index_letter_hole {a : α} (apart : left ≠ right)
    (wf : WellFormed left right (before ++ .letter a :: .hole name :: after))
    (nodup : (names (before ++ .letter a :: .hole name :: after)).Nodup) :
    index (a :: marked left right name)
      (render left right (before ++ .letter a :: .hole name :: after)) =
        some (render left right before).length := by
  refine index_eq_some_iff.mpr ⟨?_, fun j stands => ?_⟩
  · rw [StandsAt, render_append, List.drop_left]
    exact List.prefix_append (a :: marked left right name) _
  · have split : before ++ .letter a :: .hole name :: after =
        (before ++ [.letter a]) ++ .hole name :: after := by
      rw [List.append_assoc]
      rfl
    rw [split] at wf nodup stands
    have place := standsAt_letter_marked apart wf nodup stands
    rw [render_append, List.length_append] at place
    exact Nat.le_of_eq (Nat.succ.inj place.symm)

/-- Where a hole is not right after the letter, the two are nowhere. -/
theorem index_letter_hole_none {a : α} (apart : left ≠ right) (other : a ≠ right)
    (wf : WellFormed left right (before ++ .hole name :: after))
    (nodup : (names (before ++ .hole name :: after)).Nodup)
    (none : before.getLast? ≠ some (.letter a)) :
    index (a :: marked left right name) (render left right (before ++ .hole name :: after)) =
      Option.none := by
  refine index_eq_none_iff.mpr fun i stands => none ?_
  have place := standsAt_letter_marked apart wf nodup stands
  have here := stands.getElem? (j := 0) (Nat.zero_lt_succ _)
  rw [Nat.add_zero, render_append, List.getElem?_append_left (by omega)] at here
  obtain rfl | ⟨before, piece, rfl⟩ := List.eq_nil_or_concat' before
  · rw [render_nil, List.length_nil] at place
    omega
  · rw [List.getLast?_concat]
    rw [render_append, List.length_append] at place
    cases piece with
    | letter b =>
        have last : i = (render left right before).length := Nat.succ.inj place
        rw [last, render_append, List.getElem?_append_right (Nat.le_refl _), Nat.sub_self] at here
        injection here with here
        rw [here]
    | hole name' =>
        have last : i = (render left right before).length + (name'.length + 1) := by
          rw [render_hole, render_nil, List.length_cons, List.length_append, List.length_singleton]
            at place
          omega
        rw [last, render_append, List.getElem?_append_right (Nat.le_add_right _ _),
          Nat.add_sub_cancel_left, render_hole, List.getElem?_cons_succ,
          List.getElem?_append_right (Nat.le_refl _), Nat.sub_self] at here
        injection here with here
        exact absurd here.symm other

end Index

/-! ### Segments -/

section Segments

variable [DecidableEq α] {pieces : List (Piece α)} {value : List α → List α} {text : List α} {a : α}

theorem splitOn_append (free : a ∉ text) (rest : List α) :
    (text ++ rest).splitOn a = (rest.splitOn a).modifyHead (text ++ ·) := by
  induction text with
  | nil =>
      rw [List.nil_append]
      cases rest.splitOn a with
      | nil => rfl
      | cons first others => rfl
  | cons b text ih =>
      rw [List.mem_cons, not_or] at free
      rw [List.cons_append, List.splitOn_cons_eq_if_modifyHead, beq_false_of_ne (Ne.symm free.1),
        if_neg Bool.false_ne_true, ih free.2, List.modifyHead_modifyHead]
      rfl

/-- Filling a template fills its segments. -/
theorem splitOn_fill (free : ∀ name ∈ names pieces, a ∉ value name) :
    (fill value pieces).splitOn a = (pieces.splitOn (.letter a)).map (fill value) := by
  induction pieces with
  | nil => rfl
  | cons piece pieces ih =>
      rw [List.splitOn_cons_eq_if_modifyHead]
      cases piece with
      | letter b =>
          rw [fill_letter, List.splitOn_cons_eq_if_modifyHead, ih free]
          by_cases same : b = a
          · subst same
            rw [beq_self_eq_true, if_pos rfl, beq_self_eq_true, if_pos rfl]
            rfl
          · have other : Piece.letter b ≠ .letter a := fun eq => same (Piece.letter.inj eq)
            rw [beq_false_of_ne same, if_neg Bool.false_ne_true, beq_false_of_ne other,
              if_neg Bool.false_ne_true]
            cases pieces.splitOn (.letter a) with
            | nil => rfl
            | cons first others => rfl
      | hole name =>
          rw [names_hole, List.forall_mem_cons] at free
          have other : Piece.hole name ≠ .letter a := fun eq => by cases eq
          rw [fill_hole, splitOn_append free.1, ih free.2, beq_false_of_ne other,
            if_neg Bool.false_ne_true]
          cases pieces.splitOn (.letter a) with
          | nil => rfl
          | cons first others => rfl

end Segments

end Template

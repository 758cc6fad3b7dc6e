/-
Reading a list page by page.

A reader that wants all of a list asks for pages of it.  It may say how many elements it has
had, and stop at the first page that is not full; or it may name the last element it has
had, in an order by a key, and stop at an empty page.  Each page comes from a query of its
own.  While all queries see one list, both see each element once and in the order of the
list: what they do is a fold over it.
-/
import Mathlib.Data.List.Basic
import Mathlib.Order.Lattice

namespace Pages

variable {α β κ : Type*} {f : β → α → β} {size : Nat}

section Offset

variable (f) (size) in
/-- Pages by offset, up to the first that is not full; each query has its list. -/
def byOffset (rows : Nat → List α) : Nat → Nat → β → β
  | 0, _, b => b
  | steps + 1, offset, b =>
      let page := ((rows offset).drop offset).take size
      let b := page.foldl f b
      if page.length < size then b else byOffset rows steps (offset + size) b

variable {rows : Nat → List α} {all : List α}

/-- The reader is done with a first page that is not full. -/
theorem byOffset_short (short : (rows 0).length < size) (steps : Nat) (b : β) :
    byOffset f size rows (steps + 1) 0 b = (rows 0).foldl f b := by
  unfold byOffset
  dsimp only
  rw [List.drop_zero, List.take_of_length_le (Nat.le_of_lt short), if_pos short]

theorem byOffset_eq (same : ∀ offset, rows offset = all) {steps offset : Nat}
    (enough : all.length < offset + steps * size) (b : β) :
    byOffset f size rows steps offset b = (all.drop offset).foldl f b := by
  induction steps generalizing offset b with
  | zero =>
      rw [List.drop_eq_nil_of_le (by omega)]
      rfl
  | succ steps ih =>
      unfold byOffset
      dsimp only
      rw [same]
      split
      · rename_i short
        have all : (all.drop offset).length ≤ size := by
          rw [List.length_take] at short
          omega
        rw [List.take_of_length_le all]
      · have enough : all.length < offset + size + steps * size := by
          rw [Nat.succ_mul] at enough
          omega
        rw [ih enough, ← List.foldl_append, ← List.drop_drop, List.take_append_drop]

end Offset

section Key

variable [LinearOrder κ] {rows : List α} {key : α → κ}

variable (f) (rows) (key) (size) in
/-- Pages after a key, up to the first that is empty. -/
def byKey : Nat → κ → β → β
  | 0, _, b => b
  | steps + 1, after, b =>
      let page := (rows.filter fun a => after < key a).take size
      match page.getLast? with
      | none => b
      | some last => byKey steps (key last) (page.foldl f b)

/-- What comes after the last element of a page. -/
theorem filter_after_page (sorted : rows.Pairwise fun a b => key a < key b) {after : κ} {last : α}
    (is : ((rows.filter fun a => after < key a).take size).getLast? = some last) :
    (rows.filter fun a => key last < key a) = (rows.filter fun a => after < key a).drop size := by
  have sorted' := sorted.filter fun a => decide (after < key a)
  rw [← List.take_append_drop size (rows.filter fun a => after < key a),
    List.pairwise_append] at sorted'
  obtain ⟨page, -, apart⟩ := sorted'
  have here := List.mem_of_getLast? is
  have listed := (List.mem_filter.mp (List.mem_of_mem_take here)).2
  have later : ∀ a, key last < key a → after < key a :=
    fun a ha => (of_decide_eq_true listed).trans ha
  have twice : (rows.filter fun a => key last < key a)
      = (rows.filter fun a => after < key a).filter fun a => key last < key a := by
    rw [List.filter_filter]
    refine List.filter_congr fun a _ => ?_
    rw [← Bool.decide_and]
    exact decide_eq_decide.mpr ⟨fun h => ⟨h, later a h⟩, And.left⟩
  have none : (((rows.filter fun a => after < key a).take size).filter fun a => key last < key a)
      = [] := by
    refine List.filter_eq_nil_iff.mpr fun a there => ?_
    rw [decide_eq_true_eq, not_lt]
    obtain ⟨init, split⟩ := List.getLast?_eq_some_iff.mp is
    rw [split] at there page
    rcases List.mem_append.mp there with before | same
    · exact ((List.pairwise_append.mp page).2.2 a before last (.head _)).le
    · rw [List.mem_singleton.mp same]
  have all : (((rows.filter fun a => after < key a).drop size).filter fun a => key last < key a)
      = (rows.filter fun a => after < key a).drop size :=
    List.filter_eq_self.mpr fun a there => decide_eq_true (apart last here a there)
  rw [twice]
  conv_lhs => rw [← List.take_append_drop size (rows.filter fun a => after < key a)]
  rw [List.filter_append, none, all, List.nil_append]

theorem byKey_eq (positive : 0 < size) (sorted : rows.Pairwise fun a b => key a < key b)
    {steps : Nat} {after : κ} (enough : (rows.filter fun a => after < key a).length < steps) (b : β) :
    byKey f size rows key steps after b = (rows.filter fun a => after < key a).foldl f b := by
  induction steps generalizing after b with
  | zero => exact absurd enough (Nat.not_lt_zero _)
  | succ steps ih =>
      unfold byKey
      dsimp only
      split
      · rename_i none
        have none := List.getLast?_eq_none_iff.mp none
        rw [List.take_eq_nil_iff] at none
        rw [none.resolve_left (by omega)]
        rfl
      · rename_i last is
        have rest := filter_after_page sorted is
        have shorter : (rows.filter fun a => key last < key a).length < steps := by
          have some := List.length_pos_of_mem (List.mem_of_mem_take (List.mem_of_getLast? is))
          rw [rest, List.length_drop]
          omega
        rw [ih shorter, rest, ← List.foldl_append, List.take_append_drop]

end Key

end Pages

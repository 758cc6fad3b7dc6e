/-
Everything that can be reached from an element, in the order in which it is found.

A list is walked from its first element on, and the successors of each element that are
not in it yet are appended.  An element that is passed has all its successors in the
list, and no element is in it twice, so when the elements that can be found are finitely
many, the walk comes to the end of the list, and the list is closed.
-/
import Mathlib.Data.List.Nodup
import Mathlib.Data.List.Perm.Subperm

namespace Worklist

variable {α : Type*} {next : α → List α} {all : List α} {start : α}

/-- What holds of the list while it is walked. -/
structure Walking (next : α → List α) (all : List α) (start : α) (i : Nat) (found : List α) :
    Prop where
  first : start ∈ found
  nodup : found.Nodup
  known : ∀ a ∈ found, a ∈ all
  reached : ∀ a ∈ found, Relation.ReflTransGen (fun a b => b ∈ next a) start a
  passed : ∀ (j : Nat) (a : α), j < i → found[j]? = some a → ∀ b ∈ next a, b ∈ found

/-- At the end of the list, all of it has been passed. -/
theorem Walking.closed {i : Nat} {found : List α} (h : Walking next all start i found)
    (finished : found.length ≤ i) (b : α) :
    b ∈ found ↔ Relation.ReflTransGen (fun a b => b ∈ next a) start b := by
  refine ⟨h.reached b, fun path => ?_⟩
  induction path with
  | refl => exact h.first
  | tail _ edge ih =>
      obtain ⟨j, hj⟩ := List.mem_iff_getElem?.mp ih
      have inside := (List.getElem?_eq_some_iff.mp hj).1
      exact h.passed j _ (Nat.lt_of_lt_of_le inside finished) hj _ edge

theorem Walking.length_le {i : Nat} {found : List α} (h : Walking next all start i found) :
    found.length ≤ all.length :=
  (h.nodup.subperm h.known).length_le

/-- Walks that agree on what one of them reaches find the same. -/
theorem reaches_congr {other : α → List α}
    (agree : ∀ a, Relation.ReflTransGen (fun a b => b ∈ next a) start a →
      ∀ b, b ∈ other a ↔ b ∈ next a) (b : α) :
    Relation.ReflTransGen (fun a b => b ∈ other a) start b ↔
      Relation.ReflTransGen (fun a b => b ∈ next a) start b := by
  constructor
  · intro path
    induction path with
    | refl => exact .refl
    | tail _ edge ih => exact ih.tail ((agree _ ih _).mp edge)
  · intro path
    induction path with
    | refl => exact .refl
    | tail path edge ih => exact ih.tail ((agree _ path _).mpr edge)

variable [DecidableEq α]

def appendNew (found successors : List α) : List α :=
  successors.foldl (fun found a => if a ∈ found then found else found ++ [a]) found

/-- The walk from position `i` on, with a bound on the number of its steps. -/
def walk (next : α → List α) : Nat → Nat → List α → List α
  | 0, _, found => found
  | steps + 1, i, found =>
      match found[i]? with
      | none => found
      | some a => walk next steps (i + 1) (appendNew found (next a))

theorem mem_appendNew {found successors : List α} {b : α} :
    b ∈ appendNew found successors ↔ b ∈ found ∨ b ∈ successors := by
  unfold appendNew
  induction successors generalizing found with
  | nil => simp
  | cons a successors ih =>
      rw [List.foldl_cons, ih, List.mem_cons]
      split
      · rename_i there
        constructor
        · exact fun h => h.imp (fun h => h) .inr
        · rintro (h | rfl | h)
          · exact .inl h
          · exact .inl there
          · exact .inr h
      · rw [List.mem_append, List.mem_singleton, or_assoc]

theorem isPrefix_appendNew (found successors : List α) : found <+: appendNew found successors := by
  unfold appendNew
  induction successors generalizing found with
  | nil => exact List.prefix_refl found
  | cons a successors ih =>
      rw [List.foldl_cons]
      split
      · exact ih found
      · exact (List.prefix_append found [a]).trans (ih (found ++ [a]))

theorem nodup_appendNew {found : List α} (h : found.Nodup) (successors : List α) :
    (appendNew found successors).Nodup := by
  unfold appendNew
  induction successors generalizing found with
  | nil => exact h
  | cons a successors ih =>
      rw [List.foldl_cons]
      split
      · exact ih h
      · rename_i new
        refine ih (List.nodup_append.mpr ⟨h, List.nodup_singleton a, fun b hb c hc => ?_⟩)
        rw [List.mem_singleton.mp hc]
        exact fun same => new (same ▸ hb)

theorem Walking.step {i : Nat} {found : List α} {a : α} (h : Walking next all start i found)
    (here : found[i]? = some a) (known : ∀ a, ∀ b ∈ next a, b ∈ all) :
    Walking next all start (i + 1) (appendNew found (next a)) := by
  have stored : a ∈ found := List.mem_of_getElem? here
  refine ⟨mem_appendNew.mpr (.inl h.first), nodup_appendNew h.nodup _, fun b hb => ?_,
    fun b hb => ?_, fun j c hj hc b hb => ?_⟩
  · exact (mem_appendNew.mp hb).elim (h.known b) (known a b)
  · exact (mem_appendNew.mp hb).elim (h.reached b) fun hb => (h.reached a stored).tail hb
  · have inside : i < found.length := (List.getElem?_eq_some_iff.mp here).1
    have same : (appendNew found (next a))[j]? = found[j]? := by
      obtain ⟨rest, split⟩ := isPrefix_appendNew found (next a)
      rw [← split, List.getElem?_append_left (Nat.lt_of_le_of_lt (Nat.lt_succ_iff.mp hj) inside)]
    rw [same] at hc
    refine mem_appendNew.mpr ?_
    rcases Nat.lt_or_eq_of_le (Nat.lt_succ_iff.mp hj) with earlier | rfl
    · exact .inl (h.passed j c earlier hc b hb)
    · rw [here] at hc
      injection hc with hc
      exact .inr (hc ▸ hb)

theorem mem_walk_of_walking {steps i : Nat} {found : List α}
    (known : ∀ a, ∀ b ∈ next a, b ∈ all) (h : Walking next all start i found)
    (enough : all.length ≤ i + steps) (b : α) :
    b ∈ walk next steps i found ↔ Relation.ReflTransGen (fun a b => b ∈ next a) start b := by
  induction steps generalizing i found with
  | zero =>
      rw [walk]
      exact h.closed (Nat.le_trans h.length_le enough) b
  | succ steps ih =>
      rw [walk]
      cases here : found[i]? with
      | none => exact h.closed (List.getElem?_eq_none_iff.mp here) b
      | some a => exact ih (h.step here known) (by rw [Nat.add_right_comm]; exact enough)

/-- With a step for each element there can be, the walk finds what can be reached. -/
theorem mem_walk {steps : Nat} (known : ∀ a, ∀ b ∈ next a, b ∈ all) (enough : all.length < steps)
    (b : α) : b ∈ walk next steps 0 [start] ↔
      Relation.ReflTransGen (fun a b => b ∈ next a) start b := by
  have begun : Walking next (start :: all) start 0 [start] := by
    refine ⟨List.mem_cons_self, List.nodup_singleton start, fun a ha => ?_, fun a ha => ?_,
      fun j a hj => absurd hj (Nat.not_lt_zero j)⟩
    · rw [List.mem_singleton.mp ha]
      exact List.mem_cons_self
    · rw [List.mem_singleton.mp ha]
  refine mem_walk_of_walking (fun a b hb => List.mem_cons_of_mem start (known a b hb)) begun ?_ b
  rw [List.length_cons, Nat.zero_add]
  exact enough

end Worklist

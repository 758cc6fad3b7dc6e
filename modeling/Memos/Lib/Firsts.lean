/-
The first of each kind.

A list is gone through from the front, and an element is kept unless one with its key was
met before.  What is left has each key once, and stands in the order in which the keys
first come.
-/
import Mathlib.Data.List.Nodup

namespace Firsts

variable {α κ : Type*} [DecidableEq κ] (key : α → κ)

/-- The elements whose keys are new, with the keys that were seen. -/
def firsts (seen : List κ) : List α → List α
  | [] => []
  | a :: l => if key a ∈ seen then firsts seen l else a :: firsts (key a :: seen) l

variable {key}

theorem of_mem_firsts {seen : List κ} {l : List α} {a : α} (mem : a ∈ firsts key seen l) :
    a ∈ l ∧ key a ∉ seen := by
  induction l generalizing seen with
  | nil => cases mem
  | cons first l ih =>
      unfold firsts at mem
      by_cases known : key first ∈ seen
      · rw [if_pos known] at mem
        have later := ih mem
        exact ⟨List.mem_cons_of_mem first later.1, later.2⟩
      · rw [if_neg known] at mem
        rcases List.mem_cons.mp mem with rfl | mem
        · exact ⟨List.mem_cons_self, known⟩
        · have later := ih mem
          exact ⟨List.mem_cons_of_mem first later.1,
            fun earlier => later.2 (List.mem_cons_of_mem _ earlier)⟩

theorem exists_mem_firsts {seen : List κ} {l : List α} {a : α} (mem : a ∈ l)
    (new : key a ∉ seen) : ∃ b ∈ firsts key seen l, key b = key a := by
  induction l generalizing seen with
  | nil => cases mem
  | cons first l ih =>
      unfold firsts
      by_cases known : key first ∈ seen
      · rw [if_pos known]
        rcases List.mem_cons.mp mem with rfl | mem
        · exact absurd known new
        · exact ih mem new
      · rw [if_neg known]
        by_cases same : key a = key first
        · exact ⟨first, List.mem_cons_self, same.symm⟩
        · rcases List.mem_cons.mp mem with rfl | mem
          · exact absurd rfl same
          · obtain ⟨b, kept, same⟩ := ih mem (fun earlier => (List.mem_cons.mp earlier).elim same new)
            exact ⟨b, List.mem_cons_of_mem first kept, same⟩

/-- When the key tells the elements apart, the new ones are kept. -/
theorem mem_firsts {seen : List κ} {l : List α} {a : α}
    (inj : ∀ b ∈ l, key b = key a → b = a) :
    a ∈ firsts key seen l ↔ a ∈ l ∧ key a ∉ seen := by
  constructor
  · exact of_mem_firsts
  · rintro ⟨mem, new⟩
    obtain ⟨b, kept, same⟩ := exists_mem_firsts mem new
    rw [← inj b (of_mem_firsts kept).1 same]
    exact kept

variable (key) in
/-- The kept elements are in the order in which their keys first come. -/
theorem pairwise_firsts (seen : List κ) (l : List α) :
    (firsts key seen l).Pairwise fun a b => (l.map key).idxOf (key a) < (l.map key).idxOf (key b) := by
  induction l generalizing seen with
  | nil => exact .nil
  | cons first l ih =>
      have later : ∀ {a : α}, key a ≠ key first →
          ((first :: l).map key).idxOf (key a) = (l.map key).idxOf (key a) + 1 := fun differs => by
        rw [List.map_cons, List.idxOf_cons_ne _ differs.symm]
      unfold firsts
      by_cases known : key first ∈ seen
      · rw [if_pos known]
        refine (ih seen).imp_of_mem fun {a b} ha hb before => ?_
        have differs : ∀ {c}, c ∈ firsts key seen l → key c ≠ key first :=
          fun hc same => (of_mem_firsts hc).2 (same ▸ known)
        rw [later (differs ha), later (differs hb)]
        exact Nat.succ_lt_succ before
      · have differs : ∀ {c}, c ∈ firsts key (key first :: seen) l → key c ≠ key first :=
          fun hc same => (of_mem_firsts hc).2 (same ▸ List.mem_cons_self)
        rw [if_neg known, List.pairwise_cons]
        constructor
        · intro b hb
          rw [later (differs hb), List.map_cons, List.idxOf_cons_self]
          exact Nat.succ_pos _
        · refine (ih _).imp_of_mem fun {a b} ha hb before => ?_
          rw [later (differs ha), later (differs hb)]
          exact Nat.succ_lt_succ before

variable (key) in
theorem nodup_firsts (seen : List κ) (l : List α) : ((firsts key seen l).map key).Nodup := by
  rw [List.Nodup, List.pairwise_map]
  exact (pairwise_firsts key seen l).imp fun before same => by rw [same] at before; omega

/-- A list with new keys that has each once is kept whole. -/
theorem firsts_eq_self {seen : List κ} {l : List α} (distinct : (l.map key).Nodup)
    (new : ∀ a ∈ l, key a ∉ seen) : firsts key seen l = l := by
  induction l generalizing seen with
  | nil => rfl
  | cons first l ih =>
      rw [List.map_cons, List.nodup_cons] at distinct
      unfold firsts
      rw [if_neg (new first List.mem_cons_self), ih distinct.2]
      intro a mem known
      rcases List.mem_cons.mp known with same | known
      · exact distinct.1 (same ▸ List.mem_map_of_mem mem)
      · exact new a (List.mem_cons_of_mem first mem) known

/-- What a filter keeps stays in order, if it keeps all elements with a key or none. -/
theorem idxOf_lt_of_filter {p : α → Bool} {l : List α}
    (closed : ∀ a ∈ l, ∀ b ∈ l, key a = key b → p a = p b) {a b : α} (ha : a ∈ l.filter p)
    (hb : b ∈ l.filter p)
    (before : ((l.filter p).map key).idxOf (key a) < ((l.filter p).map key).idxOf (key b)) :
    (l.map key).idxOf (key a) < (l.map key).idxOf (key b) := by
  induction l with
  | nil => cases ha
  | cons first l ih =>
      have closed' : ∀ a ∈ l, ∀ b ∈ l, key a = key b → p a = p b := fun a ha b hb =>
        closed a (List.mem_cons_of_mem first ha) b (List.mem_cons_of_mem first hb)
      have mem_tail : ∀ {c}, c ∈ (first :: l).filter p → key c ≠ key first → c ∈ l.filter p := by
        intro c hc differs
        rw [List.mem_filter, List.mem_cons] at hc
        rcases hc.1 with rfl | mem
        · exact absurd rfl differs
        · exact List.mem_filter.mpr ⟨mem, hc.2⟩
      by_cases kept : p first = true
      · rw [List.filter_cons_of_pos kept, List.map_cons] at before
        have hb' : key b ≠ key first := by
          intro same
          rw [same, List.idxOf_cons_self] at before
          omega
        rw [List.idxOf_cons_ne _ hb'.symm] at before
        rw [List.map_cons, List.idxOf_cons_ne _ hb'.symm]
        by_cases same : key a = key first
        · rw [same, List.idxOf_cons_self]
          exact Nat.succ_pos _
        · rw [List.idxOf_cons_ne _ (Ne.symm same)] at before ⊢
          exact Nat.succ_lt_succ (ih closed' (mem_tail ha same) (mem_tail hb hb')
            (Nat.lt_of_succ_lt_succ before))
      · have differs : ∀ {c}, c ∈ (first :: l).filter p → key c ≠ key first := by
          intro c hc same
          obtain ⟨mem, pc⟩ := List.mem_filter.mp hc
          exact kept ((closed c mem first List.mem_cons_self same).symm.trans pc)
        rw [List.filter_cons_of_neg kept] at before
        rw [List.map_cons, List.idxOf_cons_ne _ (differs ha).symm,
          List.idxOf_cons_ne _ (differs hb).symm]
        exact Nat.succ_lt_succ (ih closed' (mem_tail ha (differs ha)) (mem_tail hb (differs hb)) before)

end Firsts

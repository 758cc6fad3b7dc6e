/-
The elements of a kind in front of a list.

They are determined by where they stop: everything up to some place is of the kind, and what
stands there is not.
-/
import Mathlib.Data.List.DropRight
import Mathlib.Data.List.Infix

namespace Span

variable {α : Type*} {p : α → Bool} {l front rest : List α} {i : Nat}

theorem takeWhile_eq (all : ∀ a ∈ front, p a = true) (stop : ∀ a ∈ rest.head?, p a = false) :
    (front ++ rest).takeWhile p = front := by
  rw [List.takeWhile_append_of_pos all]
  cases rest with
  | nil => exact List.append_nil front
  | cons a rest =>
      rw [List.takeWhile_cons_of_neg (by rw [stop a rfl]; exact Bool.false_ne_true), List.append_nil]

theorem head?_dropWhile : ∀ a ∈ (l.dropWhile p).head?, p a = false := by
  intro a mem
  have stops := List.head?_dropWhile_not p l
  rw [mem] at stops
  exact stops

theorem getElem?_of_lt (inside : i < (l.takeWhile p).length) : ∃ a, l[i]? = some a ∧ p a = true := by
  have within := List.takeWhile_prefix p (l := l)
  refine ⟨(l.takeWhile p)[i], ?_, List.mem_takeWhile_imp (List.getElem_mem inside)⟩
  exact List.getElem?_eq_some_iff.mpr ⟨Nat.lt_of_lt_of_le inside within.length_le, (within.getElem inside).symm⟩

end Span

/-
Trimming a list at both ends.

What is left is the part between the first and the last element that is not cut, so a
list is trimmed when it starts and ends with such elements, and trimming it again cuts
nothing.
-/

namespace Trim

variable {α : Type*} {p : α → Bool} {l : List α}

/-- The list without the elements of a kind in front and at the end. -/
def trim (p : α → Bool) (l : List α) : List α := (l.dropWhile p).rdropWhile p

structure Trimmed (p : α → Bool) (l : List α) : Prop where
  front : ∀ a, l.head? = some a → p a = false
  back : ∀ a, l.getLast? = some a → p a = false

theorem dropWhile_eq_self (front : ∀ a, l.head? = some a → p a = false) : l.dropWhile p = l := by
  cases l with
  | nil => rfl
  | cons a l => exact List.dropWhile_cons_of_neg (Bool.eq_false_iff.mp (front a rfl))

theorem rdropWhile_eq_self (back : ∀ a, l.getLast? = some a → p a = false) :
    l.rdropWhile p = l := by
  rw [List.rdropWhile_eq_self_iff]
  intro some
  exact Bool.eq_false_iff.mp (back _ (List.getLast?_eq_some_getLast some))

theorem Trimmed.trim_eq (trimmed : Trimmed p l) : trim p l = l := by
  unfold trim
  rw [dropWhile_eq_self trimmed.front, rdropWhile_eq_self trimmed.back]

theorem trim_infix : trim p l <:+: l :=
  (List.rdropWhile_prefix p _).isInfix.trans (List.dropWhile_suffix p).isInfix

theorem mem_of_mem_trim {a : α} (mem : a ∈ trim p l) : a ∈ l := trim_infix.subset mem

theorem trimmed_trim : Trimmed p (trim p l) := by
  refine ⟨fun a first => ?_, fun a last => ?_⟩
  · -- What is cut at the end does not reach the front.
    obtain ⟨cut, same⟩ := List.rdropWhile_prefix p (l.dropWhile p)
    obtain ⟨rest, kept⟩ : ∃ rest, (l.dropWhile p).rdropWhile p = a :: rest :=
      List.head?_eq_some_iff.mp first
    have head : (l.dropWhile p).head? = some a := by
      rw [← same, kept]
      rfl
    have stops := List.head?_dropWhile_not p l
    rw [head] at stops
    exact stops
  · unfold trim at last
    have some : (l.dropWhile p).rdropWhile p ≠ [] := by
      intro none
      rw [none] at last
      cases last
    rw [List.getLast?_eq_some_getLast some, Option.some_inj] at last
    exact last ▸ Bool.eq_false_iff.mpr (List.rdropWhile_last_not p _ some)

theorem trim_eq_self_iff : trim p l = l ↔ Trimmed p l :=
  ⟨fun same => same ▸ trimmed_trim, Trimmed.trim_eq⟩

theorem trim_trim : trim p (trim p l) = trim p l := trimmed_trim.trim_eq

/-- Nothing is left of a list that is cut whole, and of no other. -/
theorem trim_eq_nil_iff : trim p l = [] ↔ ∀ a ∈ l, p a = true := by
  unfold trim
  rw [List.rdropWhile_eq_nil_iff]
  constructor
  · intro all a mem
    rw [← List.takeWhile_append_dropWhile (p := p) (l := l)] at mem
    exact (List.mem_append.mp mem).elim List.mem_takeWhile_imp (all a)
  · intro all a mem
    exact all a ((List.dropWhile_sublist p).subset mem)

end Trim

/-
Longest prefixes of deterministic scanners.

A scanner takes steps, each of which may write something, and some of its configurations
are accepting.  When each configuration has at most one step and each step uses up
input, all paths from one start lie on one line.  So what was written on the way to a
configuration is determined by it, and the last accepting configuration on the line is
the longest match, whatever else the scanner tries and gives up.
-/

namespace Munch

variable {σ β : Type*}

inductive Path (step : σ → σ → List β → Prop) : σ → σ → List β → Prop
  | refl (c : σ) : Path step c c []
  | head {c c' c'' : σ} {out rest : List β} (first : step c c' out) (tail : Path step c' c'' rest) :
      Path step c c'' (out ++ rest)

structure Deterministic (step : σ → σ → List β → Prop) (size : σ → Nat) : Prop where
  unique : ∀ {c c₁ c₂ out₁ out₂}, step c c₁ out₁ → step c c₂ out₂ → c₁ = c₂ ∧ out₁ = out₂
  shrinks : ∀ {c c' out}, step c c' out → size c' < size c

variable {step : σ → σ → List β → Prop} {size : σ → Nat} {c a b : σ} {out out' : List β}

namespace Path

theorem single (h : step c a out) : Path step c a out := by
  have path : Path step c a (out ++ []) := .head h (.refl a)
  rwa [List.append_nil] at path

theorem trans (h : Path step c a out) (h' : Path step a b out') : Path step c b (out ++ out') := by
  induction h with
  | refl => exact h'
  | head first _ ih =>
      rw [List.append_assoc]
      exact .head first (ih h')

theorem size_le (det : Deterministic step size) (h : Path step c a out) : size a ≤ size c := by
  induction h with
  | refl => exact Nat.le_refl _
  | head first _ ih => exact Nat.le_trans ih (Nat.le_of_lt (det.shrinks first))

/-- Two paths from one start: one of them goes on where the other ends. -/
theorem comparable (det : Deterministic step size) (h : Path step c a out)
    (h' : Path step c b out') :
    (∃ w, Path step a b w ∧ out' = out ++ w) ∨ ∃ w, Path step b a w ∧ out = out' ++ w := by
  induction h generalizing out' with
  | refl c => exact .inl ⟨out', h', rfl⟩
  | head first tail ih =>
      cases h' with
      | refl => exact .inr ⟨_, .head first tail, rfl⟩
      | head first' tail' =>
          obtain ⟨rfl, rfl⟩ := det.unique first first'
          rcases ih tail' with ⟨w, path, rfl⟩ | ⟨w, path, rfl⟩
          · exact .inl ⟨w, path, by rw [List.append_assoc]⟩
          · exact .inr ⟨w, path, by rw [List.append_assoc]⟩

theorem eq_nil (det : Deterministic step size) (h : Path step c a out) (same : size a = size c) :
    a = c ∧ out = [] := by
  cases h with
  | refl => exact ⟨rfl, rfl⟩
  | head first tail =>
      have down := det.shrinks first
      have further := tail.size_le det
      omega

end Path

/-- Of the accepting configurations that can be reached, one with the least input left. -/
structure Longest (step : σ → σ → List β → Prop) (size : σ → Nat) (accept : σ → Prop) (c a : σ)
    (out : List β) : Prop where
  path : Path step c a out
  accepted : accept a
  least : ∀ b w, Path step c b w → accept b → size a ≤ size b

/-- An accepting configuration that no further one can be reached from is the longest match. -/
theorem longest_of_last {accept : σ → Prop} (det : Deterministic step size)
    (path : Path step c a out) (accepted : accept a)
    (last : ∀ b w, Path step a b w → accept b → b = a) : Longest step size accept c a out := by
  refine ⟨path, accepted, fun b w path' accepted' => ?_⟩
  rcases path.comparable det path' with ⟨_, further, -⟩ | ⟨_, back, -⟩
  · exact Nat.le_of_eq (congrArg size (last b _ further accepted').symm)
  · exact back.size_le det

/-! ### Priority -/

/-- A match of `A`, or of `B` where `A` has none. -/
def FirstOf {α : Type*} (A B : α → Prop) (w : α) : Prop := A w ∨ (¬ ∃ w', A w') ∧ B w

namespace FirstOf

variable {α : Type*} {A B : α → Prop}

theorem unique (hA : ∀ w w', A w → A w' → w = w') (hB : ∀ w w', B w → B w' → w = w') :
    ∀ w w', FirstOf A B w → FirstOf A B w' → w = w' := by
  rintro w w' (a | ⟨none, b⟩) (a' | ⟨none', b'⟩)
  · exact hA w w' a a'
  · exact absurd ⟨w, a⟩ none'
  · exact absurd ⟨w', a'⟩ none
  · exact hB w w' b b'

theorem exists_of_right (h : ∃ w, B w) : ∃ w, FirstOf A B w := by
  by_cases some : ∃ w, A w
  · obtain ⟨w, hw⟩ := some
    exact ⟨w, .inl hw⟩
  · obtain ⟨w, hw⟩ := h
    exact ⟨w, .inr ⟨some, hw⟩⟩

end FirstOf

end Munch

/-
The longest suffix of a text that has a property.

To search a text for many words at once is to know, after every character, the longest
suffix of what was read that is the beginning of a word.  The set of beginnings holds
the empty text and everything a member begins with.  For such a set the longest suffix
of a text with one more character is found among the suffixes of the longest suffix of
the text: it is the first one, from the longest on, that the character can extend.  And
a word ends at a place exactly when it ends the longest suffix there.
-/

namespace LongestSuffix

variable {α : Type*} {P W : List α → Prop} {c : α} {s t u v : List α}

/-- Of the suffixes of `t` that satisfy `P`, the longest. -/
structure Longest (P : List α → Prop) (t s : List α) : Prop where
  suffix : s <:+ t
  holds : P s
  greatest : ∀ u, u <:+ t → P u → u <:+ s

theorem Longest.unique (h : Longest P t s) (h' : Longest P t u) : s = u :=
  (h'.greatest s h.suffix h.holds).eq_of_length_le (h.greatest u h'.suffix h'.holds).length_le

theorem Longest.self (h : P t) : Longest P t t := ⟨List.suffix_rfl, h, fun _ hu _ => hu⟩

theorem suffix_iff_eq_or_tail (h : s ≠ []) : u <:+ s ↔ u = s ∨ u <:+ s.tail := by
  cases s with
  | nil => exact absurd rfl h
  | cons a s => exact List.suffix_cons_iff

/-- The set of the beginnings of some texts. -/
structure Beginnings (P : List α → Prop) : Prop where
  nil : P []
  init : ∀ s c, P (s ++ [c]) → P s

theorem Beginnings.shorten (hP : Beginnings P) (h : s <+: t) (ht : P t) : P s := by
  obtain ⟨rest, rfl⟩ := h
  induction rest using List.reverseRecOn with
  | nil => rwa [List.append_nil] at ht
  | append_singleton rest c ih =>
      rw [← List.append_assoc] at ht
      exact ih (hP.init _ c ht)

/-! ### One more character -/

/-- What a search for the next character stops at. -/
def Extendable (P : List α → Prop) (c : α) (v : List α) : Prop := v = [] ∨ P (v ++ [c])

/-- The search goes from a text the character cannot extend to the longest proper suffix. -/
theorem longest_extendable_of_tail (hP : Beginnings P) (no : ¬ Extendable P c s)
    (h : Longest P s.tail u) (hv : Longest (Extendable P c) u v) :
    Longest (Extendable P c) s v := by
  have hne : s ≠ [] := fun hs => no (.inl hs)
  refine ⟨(hv.suffix.trans h.suffix).trans (List.tail_suffix s), hv.holds, fun w hw hext => ?_⟩
  rcases hext with rfl | hext
  · exact List.nil_suffix
  · have proper : w <:+ s.tail := by
      rcases (suffix_iff_eq_or_tail hne).mp hw with rfl | hw
      · exact absurd (.inr hext) no
      · exact hw
    exact hv.greatest w (h.greatest w proper (hP.init w c hext)) (.inr hext)

theorem suffix_concat (hu : u <:+ t ++ [c]) : u = [] ∨ ∃ v, v <:+ t ∧ u = v ++ [c] := by
  rcases List.eq_nil_or_concat u with rfl | ⟨v, d, rfl⟩
  · exact .inl rfl
  · obtain ⟨front, h⟩ := hu
    rw [List.concat_eq_append, ← List.append_assoc] at h
    obtain ⟨hfront, hd⟩ := List.append_inj' h rfl
    injection hd with hd
    exact .inr ⟨v, ⟨front, hfront⟩, by rw [List.concat_eq_append, hd]⟩

theorem concat_suffix_concat (h : v <:+ t) (c : α) : v ++ [c] <:+ t ++ [c] := by
  obtain ⟨front, rfl⟩ := h
  exact ⟨front, (List.append_assoc front v [c]).symm⟩

/-- The candidates of the longer text all extend a suffix of the longest suffix. -/
theorem Longest.suffix_of_concat (hP : Beginnings P) (h : Longest P t s)
    (hv : Longest (Extendable P c) s v) (hu : u <:+ t ++ [c]) (hPu : P u) :
    u = [] ∨ u <:+ v ++ [c] := by
  rcases suffix_concat hu with rfl | ⟨w, hw, rfl⟩
  · exact .inl rfl
  · have hws := h.greatest w hw (hP.init w c hPu)
    exact .inr (concat_suffix_concat (hv.greatest w hws (.inr hPu)) c)

theorem Longest.concat (hP : Beginnings P) (h : Longest P t s)
    (hv : Longest (Extendable P c) s v) (ext : P (v ++ [c])) :
    Longest P (t ++ [c]) (v ++ [c]) := by
  refine ⟨concat_suffix_concat (hv.suffix.trans h.suffix) c, ext, fun u hu hPu => ?_⟩
  rcases h.suffix_of_concat hP hv hu hPu with rfl | hu
  · exact List.nil_suffix
  · exact hu

theorem Longest.concat_nil (hP : Beginnings P) (h : Longest P t s)
    (hv : Longest (Extendable P c) s v) (no : ¬ P (v ++ [c])) : Longest P (t ++ [c]) [] := by
  refine ⟨List.nil_suffix, hP.nil, fun u hu hPu => ?_⟩
  have hnil : v = [] := hv.holds.resolve_right no
  rcases h.suffix_of_concat hP hv hu hPu with rfl | hu
  · exact List.suffix_rfl
  · rw [hnil] at hu no
    rcases (suffix_iff_eq_or_tail (List.cons_ne_nil c [])).mp hu with rfl | hu
    · exact absurd hPu no
    · exact hu

/-! ### Words -/

/-- A word that ends a text also ends its longest suffix. -/
theorem Longest.exists_suffix_iff (h : Longest P t s) (hW : ∀ w, W w → P w) :
    (∃ w, W w ∧ w <:+ t) ↔ ∃ w, W w ∧ w <:+ s := by
  constructor
  · rintro ⟨w, hw, suffix⟩
    exact ⟨w, hw, h.greatest w suffix (hW w hw)⟩
  · rintro ⟨w, hw, suffix⟩
    exact ⟨w, hw, suffix.trans h.suffix⟩

/-- A text ends with a word if it is one or its longest proper suffix ends with one. -/
theorem Longest.exists_suffix_iff_of_tail (h : Longest P s.tail u) (hs : s ≠ [])
    (hW : ∀ w, W w → P w) : (∃ w, W w ∧ w <:+ s) ↔ W s ∨ ∃ w, W w ∧ w <:+ u := by
  rw [← h.exists_suffix_iff hW]
  constructor
  · rintro ⟨w, hw, suffix⟩
    rcases (suffix_iff_eq_or_tail hs).mp suffix with rfl | suffix
    · exact .inl hw
    · exact .inr ⟨w, hw, suffix⟩
  · rintro (hw | ⟨w, hw, suffix⟩)
    · exact ⟨s, hw, List.suffix_rfl⟩
    · exact ⟨w, hw, suffix.trans (List.tail_suffix s)⟩

theorem exists_infix_iff : (∃ w, W w ∧ w <:+: t) ↔ ∃ p, p <+: t ∧ ∃ w, W w ∧ w <:+ p := by
  constructor
  · rintro ⟨w, hw, hwt⟩
    obtain ⟨p, suffix, beginning⟩ := List.infix_iff_suffix_prefix.mp hwt
    exact ⟨p, beginning, w, hw, suffix⟩
  · rintro ⟨p, beginning, w, hw, suffix⟩
    exact ⟨w, hw, List.infix_iff_suffix_prefix.mpr ⟨p, suffix, beginning⟩⟩

end LongestSuffix

/-
Pattern matching as `LIKE` does it.

In a pattern a percent sign stands for any text and an underscore for any one character;
the escape character takes its meaning from the character after it.  Every other character
of the pattern stands for the characters that a comparison takes for the same.

A text is escaped character by character.  An escaped text stands for itself only, whatever
comes after it in the pattern, and what is done to each character of a text, be it before
or after escaping, comes to the same when it leaves the three signs alone and makes none.
-/
import Mathlib.Data.List.Infix

namespace Like

variable {κ : Type*} [DecidableEq κ] {escape : Char} {key : Char → κ}

/-- A first character that passes, and a rest that does. -/
def onHead (first : Char → Bool) (rest : List Char → Bool) : List Char → Bool
  | [] => false
  | c :: text => first c && rest text

/-- Characters with one key are the same.  A pattern that ends in the escape character
matches nothing. -/
def matchesText (escape : Char) (key : Char → κ) : List Char → List Char → Bool
  | [], text => text.isEmpty
  | p :: pattern, text =>
      if p = '%' then text.tails.any (matchesText escape key pattern)
      else if p = '_' then onHead (fun _ => true) (matchesText escape key pattern) text
      else if p = escape then
        match pattern with
        | [] => false
        | q :: pattern =>
            onHead (fun c => decide (key q = key c)) (matchesText escape key pattern) text
      else onHead (fun c => decide (key p = key c)) (matchesText escape key pattern) text

/-- The characters that mean something in a pattern. -/
def IsSign (escape c : Char) : Prop := c = escape ∨ c = '%' ∨ c = '_'

instance (escape c : Char) : Decidable (IsSign escape c) :=
  inferInstanceAs (Decidable (_ ∨ _ ∨ _))

def escapeText (escape : Char) (s : List Char) : List Char :=
  s.flatMap fun c => if IsSign escape c then [escape, c] else [c]

/-! ### What an escaped text matches -/

theorem matchesText_percent (pattern text : List Char) :
    matchesText escape key ('%' :: pattern) text = true ↔
      ∃ before after, text = before ++ after ∧ matchesText escape key pattern after = true := by
  rw [matchesText.eq_def]
  dsimp only
  rw [if_pos rfl, List.any_eq_true]
  constructor
  · rintro ⟨after, tail, matched⟩
    obtain ⟨before, rfl⟩ := (List.mem_tails _ _).mp tail
    exact ⟨before, after, rfl, matched⟩
  · rintro ⟨before, after, rfl, matched⟩
    exact ⟨after, (List.mem_tails _ _).mpr ⟨before, rfl⟩, matched⟩

theorem onHead_iff {first : Char → Bool} {rest : List Char → Bool} {text : List Char} :
    onHead first rest text = true ↔
      ∃ d after, text = d :: after ∧ first d = true ∧ rest after = true := by
  cases text with
  | nil => simp [onHead]
  | cons d after => simp [onHead]

theorem matchesText_char (percent : escape ≠ '%') (underscore : escape ≠ '_') (c : Char)
    (pattern text : List Char) :
    matchesText escape key ((if IsSign escape c then [escape, c] else [c]) ++ pattern) text = true ↔
      ∃ d rest, text = d :: rest ∧ key c = key d ∧ matchesText escape key pattern rest = true := by
  by_cases sign : IsSign escape c
  · rw [if_pos sign, List.cons_append, List.singleton_append, matchesText.eq_def]
    dsimp only
    rw [if_neg percent, if_neg underscore, if_pos rfl, onHead_iff]
    simp only [decide_eq_true_eq]
  · rw [if_neg sign, List.singleton_append, matchesText.eq_def]
    unfold IsSign at sign
    dsimp only
    rw [if_neg fun h => sign (.inr (.inl h)), if_neg fun h => sign (.inr (.inr h)),
      if_neg fun h => sign (.inl h), onHead_iff]
    simp only [decide_eq_true_eq]

/-- An escaped text takes characters with its keys, and the pattern goes on after them. -/
theorem matchesText_escapeText (percent : escape ≠ '%') (underscore : escape ≠ '_')
    (s pattern text : List Char) :
    matchesText escape key (escapeText escape s ++ pattern) text = true ↔
      ∃ taken rest, text = taken ++ rest ∧ s.map key = taken.map key
        ∧ matchesText escape key pattern rest = true := by
  induction s generalizing text with
  | nil =>
      constructor
      · intro matched
        exact ⟨[], text, rfl, rfl, matched⟩
      · rintro ⟨taken, rest, rfl, same, matched⟩
        rw [List.map_nil, eq_comm, List.map_eq_nil_iff] at same
        rw [same]
        exact matched
  | cons c s ih =>
      rw [escapeText, List.flatMap_cons, List.append_assoc,
        matchesText_char percent underscore]
      constructor
      · rintro ⟨d, rest, rfl, same, matched⟩
        obtain ⟨taken, rest', rfl, keys, matched'⟩ := (ih rest).mp matched
        exact ⟨d :: taken, rest', rfl, by rw [List.map_cons, List.map_cons, same, keys], matched'⟩
      · rintro ⟨taken, rest, rfl, keys, matched⟩
        cases taken with
        | nil => cases keys
        | cons d taken =>
            rw [List.map_cons, List.map_cons, List.cons.injEq] at keys
            exact ⟨d, taken ++ rest, rfl, keys.1, (ih _).mpr ⟨taken, rest, rfl, keys.2, matched⟩⟩

theorem matchesText_starts (percent : escape ≠ '%') (underscore : escape ≠ '_')
    (s text : List Char) :
    matchesText escape key (escapeText escape s ++ ['%']) text = true ↔
      s.map key <+: text.map key := by
  rw [matchesText_escapeText percent underscore]
  constructor
  · rintro ⟨taken, rest, rfl, keys, -⟩
    exact ⟨rest.map key, by rw [keys, List.map_append]⟩
  · rintro ⟨after, split⟩
    obtain ⟨taken, rest, rfl, keys, -⟩ := List.map_eq_append_iff.mp split.symm
    refine ⟨taken, rest, rfl, keys.symm, ?_⟩
    exact (matchesText_percent [] rest).mpr ⟨rest, [], (List.append_nil rest).symm, rfl⟩

theorem matchesText_ends (percent : escape ≠ '%') (underscore : escape ≠ '_')
    (s text : List Char) :
    matchesText escape key ('%' :: escapeText escape s) text = true ↔
      s.map key <:+ text.map key := by
  rw [matchesText_percent]
  constructor
  · rintro ⟨before, after, rfl, matched⟩
    rw [← List.append_nil (escapeText escape s), matchesText_escapeText percent underscore] at matched
    obtain ⟨taken, rest, rfl, keys, ended⟩ := matched
    have : rest = [] := List.isEmpty_iff.mp ended
    exact ⟨before.map key, by rw [keys, this, List.append_nil, List.map_append]⟩
  · rintro ⟨front, split⟩
    obtain ⟨before, taken, rfl, -, keys⟩ := List.map_eq_append_iff.mp split.symm
    refine ⟨before, taken, rfl, ?_⟩
    rw [← List.append_nil (escapeText escape s), matchesText_escapeText percent underscore]
    exact ⟨taken, [], (List.append_nil taken).symm, keys.symm, rfl⟩

theorem matchesText_contains (percent : escape ≠ '%') (underscore : escape ≠ '_')
    (s text : List Char) :
    matchesText escape key ('%' :: (escapeText escape s ++ ['%'])) text = true ↔
      s.map key <:+: text.map key := by
  rw [matchesText_percent]
  constructor
  · rintro ⟨before, after, rfl, matched⟩
    obtain ⟨rest, split⟩ := (matchesText_starts percent underscore s after).mp matched
    exact ⟨before.map key, rest, by rw [List.append_assoc, split, List.map_append]⟩
  · rintro ⟨front, back, split⟩
    rw [List.append_assoc] at split
    obtain ⟨before, after, rfl, -, keys⟩ := List.map_eq_append_iff.mp split.symm
    exact ⟨before, after, rfl, (matchesText_starts percent underscore s after).mpr ⟨back, keys.symm⟩⟩

/-! ### Folding -/

/-- What is put in the place of each character: the signs stay, and no other character
turns into one. -/
structure Folding (escape : Char) where
  char : Char → List Char
  sign : ∀ c, IsSign escape c → char c = [c]
  no_sign : ∀ c, ¬IsSign escape c → ∀ d ∈ char c, ¬IsSign escape d

def Folding.fold (folding : Folding escape) (s : List Char) : List Char := s.flatMap folding.char

variable (folding : Folding escape)

theorem Folding.fold_append (s t : List Char) :
    folding.fold (s ++ t) = folding.fold s ++ folding.fold t := List.flatMap_append

theorem Folding.fold_sign {c : Char} (sign : IsSign escape c) : folding.fold [c] = [c] := by
  rw [Folding.fold, List.flatMap_singleton, folding.sign c sign]

theorem escapeText_of_no_sign {s : List Char} (none : ∀ c ∈ s, ¬IsSign escape c) :
    escapeText escape s = s := by
  induction s with
  | nil => rfl
  | cons c s ih =>
      rw [escapeText, List.flatMap_cons, if_neg (none c List.mem_cons_self), List.singleton_append]
      exact congrArg (c :: ·) (ih fun d hd => none d (List.mem_cons_of_mem c hd))

theorem escapeText_append (s t : List Char) :
    escapeText escape (s ++ t) = escapeText escape s ++ escapeText escape t :=
  List.flatMap_append

theorem Folding.fold_escapeText (s : List Char) :
    folding.fold (escapeText escape s) = escapeText escape (folding.fold s) := by
  induction s with
  | nil => rfl
  | cons c s ih =>
      have first : folding.fold (if IsSign escape c then [escape, c] else [c])
          = escapeText escape (folding.char c) := by
        by_cases sign : IsSign escape c
        · rw [if_pos sign, folding.sign c sign, ← List.singleton_append, folding.fold_append,
            folding.fold_sign (.inl rfl), folding.fold_sign sign, escapeText,
            List.flatMap_singleton, if_pos sign]
          rfl
        · rw [if_neg sign, escapeText_of_no_sign (folding.no_sign c sign), Folding.fold,
            List.flatMap_singleton]
      calc folding.fold (escapeText escape (c :: s))
          = folding.fold (if IsSign escape c then [escape, c] else [c])
              ++ folding.fold (escapeText escape s) := folding.fold_append _ _
        _ = escapeText escape (folding.char c) ++ escapeText escape (folding.fold s) := by
              rw [first, ih]
        _ = escapeText escape (folding.fold (c :: s)) := (escapeText_append _ _).symm

end Like

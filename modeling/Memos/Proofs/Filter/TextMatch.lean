/-
Texts that contain, start with or end with another.

A text match is rendered as a `LIKE` with the value escaped and percent signs around it.
What each engine documents of its `LIKE` is a structure here: the character that escapes,
and how the two sides are compared without regard to case.  SQLite folds both sides with a
function of the server before it compares them, and so folds a pattern that is escaped
already; Postgres does the same inside `ILIKE`, and MySQL compares under a collation.
-/
import Memos.Lib.Like
import Memos.Proofs.Filter.Negation

namespace Memos.Filter

open Sql Like

def TextMatchMode.Holds : TextMatchMode → List Char → List Char → Prop
  | .matchContains, value, content => value <:+: content
  | .matchPrefix, value, content => value <+: content
  | .matchSuffix, value, content => value <:+ content

instance (mode : TextMatchMode) (value content : List Char) :
    Decidable (mode.Holds value content) := by
  cases mode <;> unfold TextMatchMode.Holds <;> infer_instance

/-- The percent signs around an escaped text. -/
def TextMatchMode.around : TextMatchMode → List Char → List Char
  | .matchContains, escaped => '%' :: (escaped ++ ['%'])
  | .matchPrefix, escaped => escaped ++ ['%']
  | .matchSuffix, escaped => '%' :: escaped

/-- What the engines document of a match without regard to case. -/
structure LikeEngine (E : Engine) where
  /-- The folding of `memos_unicode_lower`. -/
  unicode : Folding '\\'
  fold_eq : ∀ s, (E.fold s).toList = unicode.fold s.toList
  small : ∀ c, ∀ d ∈ unicode.char c, d.toLower = d
  likeBackslash : ∀ text pattern, E.matchPattern .likeBackslash text pattern
    = matchesText '\\' Char.toLower pattern.toList text.toList
  /-- Postgres makes both sides small. -/
  lower : Folding '\\'
  ilike : ∀ text pattern, E.matchPattern .ilike text pattern
    = matchesText '\\' id (lower.fold pattern.toList) (lower.fold text.toList)
  /-- The characters that a collation of MySQL takes for the same have one key. -/
  collation : Char → Char
  like : ∀ text pattern, E.matchPattern .like text pattern
    = matchesText '\\' collation pattern.toList text.toList

def LikeEngine.folded {E : Engine} (L : LikeEngine E) : Dialect → String → List Char
  | .sqlite, s => L.unicode.fold s.toList
  | .postgres, s => L.lower.fold s.toList
  | .mysql, s => s.toList.map L.collation

/-! ### The pattern -/

theorem toList_escapeChars (escape : Char) (s : String) :
    (escapeChars escape s).toList = escapeText escape s.toList := by
  unfold escapeChars escapeText
  rw [String.toList_join, List.flatMap_map]
  congr 1
  funext c
  by_cases sign : IsSign escape c
  · rw [if_pos sign]
    unfold IsSign at sign
    rw [if_pos sign]
    simp
  · rw [if_neg sign]
    unfold IsSign at sign
    rw [if_neg sign]
    simp

theorem toList_wrapPattern (mode : TextMatchMode) (escaped : String) :
    (wrapPattern mode escaped).toList = mode.around escaped.toList := by
  cases mode <;> simp [wrapPattern, TextMatchMode.around]

theorem toList_likePattern (mode : TextMatchMode) (value : String) :
    (likePattern mode value).toList = mode.around (escapeText '\\' value.toList) := by
  rw [likePattern, toList_wrapPattern, escapeLikeLiteral, toList_escapeChars]

theorem fold_around (folding : Folding '\\') (mode : TextMatchMode) (escaped : List Char) :
    folding.fold (mode.around escaped) = mode.around (folding.fold escaped) := by
  have percent : folding.fold ['%'] = ['%'] := folding.fold_sign (.inr (.inl rfl))
  cases mode with
  | matchPrefix => rw [TextMatchMode.around, folding.fold_append, percent]; rfl
  | matchSuffix =>
      rw [TextMatchMode.around, ← List.singleton_append, folding.fold_append, percent]
      rfl
  | matchContains =>
      rw [TextMatchMode.around, ← List.singleton_append, folding.fold_append,
        folding.fold_append, percent]
      rfl

theorem fold_likePattern (folding : Folding '\\') (mode : TextMatchMode) (value : String) :
    folding.fold (likePattern mode value).toList
      = mode.around (escapeText '\\' (folding.fold value.toList)) := by
  rw [toList_likePattern, fold_around, folding.fold_escapeText]

theorem matchesText_around (key : Char → Char) (mode : TextMatchMode) (value text : List Char) :
    matchesText '\\' key (mode.around (escapeText '\\' value)) text = true ↔
      mode.Holds (value.map key) (text.map key) := by
  cases mode with
  | matchContains => exact matchesText_contains (by decide) (by decide) value text
  | matchPrefix => exact matchesText_starts (by decide) (by decide) value text
  | matchSuffix => exact matchesText_ends (by decide) (by decide) value text

theorem matchesText_likePattern (mode : TextMatchMode) (value : String) (key : Char → Char)
    (text : List Char) :
    matchesText '\\' key (likePattern mode value).toList text = true ↔
      mode.Holds (value.toList.map key) (text.map key) := by
  rw [toList_likePattern, matchesText_around]

/-! ### The three dialects -/

section Dialects

variable {E : Engine} (L : LikeEngine E)

/-- A text folded by SQLite's function has no capital ASCII letter left. -/
theorem LikeEngine.map_toLower_fold (s : List Char) :
    (L.unicode.fold s).map Char.toLower = L.unicode.fold s := by
  refine (List.map_congr_left ?_).trans (List.map_id _)
  intro d hd
  obtain ⟨c, -, made⟩ := List.mem_flatMap.mp hd
  exact L.small c d made

theorem textMatch_truth (d : Dialect) {S : Schema} {V : RowView} {name content : String}
    (subject : V.value name = .text content) (mode : TextMatchMode) (value : String) :
    (Condition.textMatch name mode value).truth E d S V
      = .ofBool (decide (mode.Holds (L.folded d value) (L.folded d content))) := by
  rw [Condition.truth]
  unfold textMatchTruth
  rw [subject]
  cases d with
  | sqlite =>
      dsimp only [Value.strict, Engine.applyFn, Engine.matchValues, Engine.textOf]
      rw [L.likeBackslash, L.fold_eq, L.fold_eq, fold_likePattern]
      congr 1
      rw [Bool.eq_iff_iff, decide_eq_true_iff, matchesText_around, L.map_toLower_fold,
        L.map_toLower_fold]
      rfl
  | postgres =>
      dsimp only [Engine.matchValues, Engine.textOf]
      rw [L.ilike, fold_likePattern]
      congr 1
      rw [Bool.eq_iff_iff, decide_eq_true_iff, matchesText_around, List.map_id, List.map_id]
      rfl
  | mysql =>
      dsimp only [Engine.matchValues, Engine.textOf]
      rw [L.like, toList_likePattern]
      congr 1
      rw [Bool.eq_iff_iff, decide_eq_true_iff, matchesText_around]
      rfl

/-- **A text match is true exactly when the folded content contains, starts with or ends
with the folded value.**  The pattern of a value matches what has the value in it, at its
start or at its end, and folding a pattern is writing the pattern of the folded value. -/
theorem textMatch_exact {R : Renderer} {mode : TextMatchMode} {name value content : String}
    {s : Statement} {sql : Pred} (ok : R.render (.textMatch name mode value) = .ok s)
    (is : s.sql = some sql) {env : Env} {V : RowView} (represents : Represents R E env V)
    (binds : Binds env s.args) (subject : V.value name = .text content) :
    sql.eval E env
        = .ofBool (decide (mode.Holds (L.folded R.dialect value) (L.folded R.dialect content)))
      ∧ (∀ (key : Char → Char) (text : List Char),
        matchesText '\\' key (likePattern mode value).toList text = true ↔
          mode.Holds (value.toList.map key) (text.map key))
      ∧ (E.fold (likePattern mode value)).toList
        = mode.around (escapeText '\\' (L.unicode.fold value.toList)) := by
  refine ⟨?_, matchesText_likePattern mode value, by rw [L.fold_eq, fold_likePattern]⟩
  rw [← textMatch_truth L R.dialect subject]
  obtain ⟨r, st, tree, args, shape⟩ := render_ok ok
  rw [is] at shape
  rw [args] at binds
  cases r with
  | trivial => cases shape
  | unsatisfiable =>
      have value : (Condition.textMatch name mode value).constValue = some false := tree.result
      cases value
  | fragment p =>
      cases shape
      have fragment : FragmentOf R _ {} sql st := tree.result
      exact (fragment.means E env V represents binds).1

end Dialects

def IsSmall (c : Char) : Prop := 97 ≤ c.toNat ∧ c.toNat ≤ 122

instance (c : Char) : Decidable (IsSmall c) := inferInstanceAs (Decidable (_ ∧ _))

theorem toLower_cases (c : Char) : c.toLower = c ∨ IsSmall c.toLower := by
  unfold Char.toLower IsSmall
  split
  case isTrue capital =>
    right
    have low : 65 ≤ c.val.toNat := UInt32.le_iff_toNat_le.mp capital.1
    have high : c.val.toNat ≤ 90 := UInt32.le_iff_toNat_le.mp capital.2
    have sum : (c.val + ('a'.val - 'A'.val)).toNat = (c.val.toNat + 32) % 2 ^ 32 :=
      UInt32.toNat_add c.val 32
    change 97 ≤ (c.val + ('a'.val - 'A'.val)).toNat ∧ (c.val + ('a'.val - 'A'.val)).toNat ≤ 122
    omega
  case isFalse => exact .inl rfl

theorem toLower_of_small {c : Char} (small : IsSmall c) : c.toLower = c := by
  unfold Char.toLower
  split
  case isTrue capital =>
    have high : c.val.toNat ≤ 90 := UInt32.le_iff_toNat_le.mp capital.2
    have low : 97 ≤ c.val.toNat := small.1
    omega
  case isFalse => rfl

def sampleFolding : Folding '\\' where
  char c := if c = 'ß' then ['s', 's'] else [c.toLower]
  sign := by
    rintro c (rfl | rfl | rfl) <;> decide
  no_sign c ordinary d hd := by
    split at hd
    · rcases List.mem_cons.mp hd with rfl | hd
      · decide
      · rw [List.mem_singleton.mp hd]
        decide
    · rw [List.mem_singleton.mp hd]
      rcases toLower_cases c with same | capital
      · rw [same]
        exact ordinary
      · rintro (same | same | same) <;> rw [same] at capital <;> revert capital <;> decide

/-- Engines that match as they document it. -/
def matchingPrimitives : Primitives :=
  { plainPrimitives with
    fold := fun s => String.ofList (sampleFolding.fold s.toList)
    matchPattern := fun op text pattern =>
      match op with
      | .likeBackslash => matchesText '\\' Char.toLower pattern.toList text.toList
      | .ilike => matchesText '\\' id (sampleFolding.fold pattern.toList)
          (sampleFolding.fold text.toList)
      | .like => matchesText '\\' Char.toLower pattern.toList text.toList
      | _ => false }

def matchingLike (d : Dialect) : LikeEngine (d.engine matchingPrimitives) where
  unicode := sampleFolding
  fold_eq s := String.toList_ofList
  small c d hd := by
    change d ∈ (if c = 'ß' then ['s', 's'] else [c.toLower]) at hd
    split at hd
    · rcases List.mem_cons.mp hd with rfl | hd
      · decide
      · rw [List.mem_singleton.mp hd]
        decide
    · rw [List.mem_singleton.mp hd]
      rcases toLower_cases c with same | capital
      · rw [same, same]
      · exact toLower_of_small capital
  likeBackslash _ _ := rfl
  lower := sampleFolding
  ilike _ _ := rfl
  collation := Char.toLower
  like _ _ := rfl

/-- A file whose name has a wildcard and a letter that folds to two. -/
def wildcardFile : Row :=
  .attachment { filename := "100%_Straße.png", type := "", createdTs := 0, memo := none }

theorem textMatch_exact_wildcard : ∃ s sql,
    Renderer.render ⟨attachmentSchema, .sqlite, 0⟩
      (.textMatch "filename" .matchContains "%_STRASSE") = .ok s ∧ s.sql = some sql ∧
      sql.eval (Dialect.sqlite.engine matchingPrimitives) (s.env .sqlite wildcardFile)
        = .ofBool true := by
  refine ⟨_, _, rfl, rfl, ?_⟩
  have subject : (wildcardFile.view .sqlite matchingPrimitives).value "filename"
      = .text "100%_Straße.png" := rfl
  rw [(textMatch_exact (matchingLike .sqlite) rfl rfl
    (row_represents wildcardFile .sqlite matchingPrimitives 0 rfl)
    (Statement.env_binds _ .sqlite wildcardFile) subject).1]
  decide +kernel

end Memos.Filter

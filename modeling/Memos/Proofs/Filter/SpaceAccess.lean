/-
A filter that passes the space check asks about resolved spaces only.

The induction is on the condition tree with the polarity generalized: once below a
negation the check stays below one, so a leaf that mentions the space field survives
only on a path without `!`.  The two facts it carries are that no name is ever dropped
from the set and that every surviving leaf has left its name there.

The check also lets `space == null` through, on purpose: it selects the memos that are
in no space, and tests no name.
-/
import Memos.Filter.SpaceAccess

namespace Memos.Filter

/-! ### References -/

mutual

theorem mentions_of_valueReferencesSpace :
    ∀ v : ValueExpr, valueReferencesSpace v = true → v.Mentions "space"
  | .fieldRef name, h => by
      obtain rfl : name = "space" := by simpa [valueReferencesSpace] using h
      exact .ref
  | .function name args, h => by
      obtain ⟨a, hmem, ha⟩ := mentions_of_anyReferencesSpace args (by simpa [valueReferencesSpace] using h)
      exact .argument hmem ha
  | .fieldAccessor field acc, h => by
      obtain rfl : field = "space" := by simpa [valueReferencesSpace] using h
      exact .accessor acc
  | .literal _, h => by simp [valueReferencesSpace] at h

theorem mentions_of_anyReferencesSpace :
    ∀ vs : List ValueExpr, anyReferencesSpace vs = true → ∃ v ∈ vs, v.Mentions "space"
  | [], h => by simp [anyReferencesSpace] at h
  | v :: rest, h => by
      simp only [anyReferencesSpace, Bool.or_eq_true] at h
      rcases h with h | h
      · exact ⟨v, List.mem_cons_self, mentions_of_valueReferencesSpace v h⟩
      · obtain ⟨w, hmem, hw⟩ := mentions_of_anyReferencesSpace rest h
        exact ⟨w, List.mem_cons_of_mem v hmem, hw⟩

end

theorem anyReferencesSpace_eq_any (vs : List ValueExpr) :
    anyReferencesSpace vs = vs.any valueReferencesSpace := by
  induction vs with
  | nil => rfl
  | cons v rest ih => rw [anyReferencesSpace, ih, List.any_cons]

theorem valueReferencesSpace_iff (v : ValueExpr) :
    valueReferencesSpace v = true ↔ v.Mentions "space" := by
  refine ⟨mentions_of_valueReferencesSpace v, fun h => ?_⟩
  induction h with
  | ref => rfl
  | accessor acc => rfl
  | argument mem _ ih =>
      rw [valueReferencesSpace, anyReferencesSpace_eq_any]
      exact List.any_eq_true.mpr ⟨_, mem, ih⟩

theorem not_mentions {v : ValueExpr} (h : valueReferencesSpace v = false) :
    ¬ v.Mentions "space" := by
  rw [← valueReferencesSpace_iff, h]
  exact Bool.false_ne_true

/-! ### The walk -/

theorem mem_insertName {names : List String} {name n : String} :
    n ∈ insertName names name ↔ n ∈ names ∨ n = name := by
  unfold insertName
  split
  · rename_i hmem
    constructor
    · exact Or.inl
    · rintro (h | rfl)
      · exact h
      · exact hmem
  · simp

/-- The only leaves that mention the space field and pass. -/
def Allowed (leaf : Condition) (names : List String) : Prop :=
  (∃ name, leaf = spaceEquals (.string name) ∧ name ∈ names) ∨ leaf = spaceEquals .null

theorem collectComparison_ok {left right : ValueExpr} {op : Sql.Op} {negated : Bool}
    {names names' : List String} (h : collectComparison left op right negated names = .ok names') :
    (¬ left.Mentions "space" ∧ ¬ right.Mentions "space" ∧ names' = names) ∨
    (negated = false ∧ left = .fieldRef "space" ∧ op = .eq ∧
      ((right = .literal .null ∧ names' = names) ∨
        ∃ name, right = .literal (.string name) ∧ names' = insertName names name)) := by
  unfold collectComparison at h
  split at h
  · rename_i hrefs
    simp only [Bool.and_eq_true, Bool.not_eq_true'] at hrefs
    cases h
    exact Or.inl ⟨not_mentions hrefs.1, not_mentions hrefs.2, rfl⟩
  · right
    split at h
    · rename_i field _
      split at h
      · cases h
      · rename_i hguard
        simp only [ne_eq, decide_not, Bool.or_eq_true, Bool.not_eq_true', decide_eq_false_iff_not,
          not_or, not_not, Bool.not_eq_true] at hguard
        obtain ⟨⟨rfl, rfl⟩, rfl⟩ := hguard
        split at h
        · cases h
          exact ⟨rfl, rfl, rfl, Or.inl ⟨rfl, rfl⟩⟩
        · cases h
          exact ⟨rfl, rfl, rfl, Or.inr ⟨_, rfl, rfl⟩⟩
        · cases h
    · cases h

/-- What a successful walk says about a tree, from any set of names and below any
number of negations. -/
structure Walked (c : Condition) (negated : Bool) (names names' : List String) : Prop where
  grows : ∀ name, name ∈ names' ↔ name ∈ names ∨ ∃ n, LeafIn (spaceEquals (.string name)) n c
  /-- A leaf that mentions the space is an allowed one, below no negation. -/
  allowed : ∀ leaf n, LeafIn leaf n c → leaf.LeafMentions "space" →
    negated = false ∧ n = false ∧ Allowed leaf names'

/-- A leaf that does not mention the space leaves the set alone. -/
theorem Walked.silent {c : Condition} {negated : Bool} {names : List String}
    (hleaf : ∀ leaf n, LeafIn leaf n c → leaf = c) (hc : ¬ c.LeafMentions "space") :
    Walked c negated names names := by
  refine ⟨fun name => ⟨Or.inl, ?_⟩, fun leaf n hin hm => ?_⟩
  · rintro (h | ⟨n, hin⟩)
    · exact h
    · exact absurd (hleaf _ _ hin ▸ .left .ref) hc
  · exact absurd (hleaf _ _ hin ▸ hm) hc

theorem Walked.onField {c : Condition} {negated : Bool} {names names' : List String}
    {field message : String}
    (h : (if field == "space" then .error message else .ok names : Except String _) = .ok names')
    (hleaf : ∀ leaf n, LeafIn leaf n c → leaf = c) (hc : c.LeafMentions "space" → field = "space") :
    Walked c negated names names' := by
  split at h
  · cases h
  · rename_i hfield
    cases h
    exact .silent hleaf fun hm => hfield (beq_iff_eq.mpr (hc hm))

theorem collectSpaceFilterNames_walked {c : Condition} {negated : Bool}
    {names names' : List String} (h : collectSpaceFilterNames c negated names = .ok names') :
    Walked c negated names names' := by
  induction c generalizing negated names names' with
  | logical op left right ihl ihr =>
      simp only [collectSpaceFilterNames] at h
      cases hl : collectSpaceFilterNames left negated names with
      | error e => simp [hl, bind, Except.bind] at h
      | ok mid =>
          simp only [hl, bind, Except.bind] at h
          have wl := ihl hl
          have wr := ihr h
          refine ⟨fun name => ?_, fun leaf n hin hm => ?_⟩
          · rw [wr.grows, wl.grows]
            constructor
            · rintro ((h | ⟨n, hin⟩) | ⟨n, hin⟩)
              · exact Or.inl h
              · exact Or.inr ⟨n, .left hin⟩
              · exact Or.inr ⟨n, .right hin⟩
            · rintro (h | ⟨n, hin⟩)
              · exact Or.inl (Or.inl h)
              · cases hin with
                | left hin => exact Or.inl (Or.inr ⟨n, hin⟩)
                | right hin => exact Or.inr ⟨n, hin⟩
          · cases hin with
            | here => cases hm
            | left hin =>
                obtain ⟨hneg, hn, ⟨name, rfl, hmem⟩ | rfl⟩ := wl.allowed leaf n hin hm
                · exact ⟨hneg, hn, Or.inl ⟨name, rfl, (wr.grows name).mpr (Or.inl hmem)⟩⟩
                · exact ⟨hneg, hn, Or.inr rfl⟩
            | right hin => exact wr.allowed leaf n hin hm
  | not expr ih =>
      have w := ih (by simpa only [collectSpaceFilterNames] using h)
      refine ⟨fun name => ?_, fun leaf n hin hm => ?_⟩
      · rw [w.grows]
        constructor
        · rintro (h | ⟨n, hin⟩)
          · exact Or.inl h
          · exact Or.inr ⟨true, .under hin⟩
        · rintro (h | ⟨n, hin⟩)
          · exact Or.inl h
          · cases hin with
            | under hin => exact Or.inr ⟨_, hin⟩
      · cases hin with
        | here => cases hm
        | under hin =>
            -- Below `!` the walk is in negated mode, where no such leaf passes.
            have habsurd := (w.allowed leaf _ hin hm).1
            cases habsurd
  | comparison left op right =>
      simp only [collectSpaceFilterNames] at h
      have hleaf : ∀ leaf n, LeafIn leaf n (.comparison left op right) →
          leaf = .comparison left op right := fun leaf n hin => by cases hin; rfl
      rcases collectComparison_ok h with ⟨hl, hr, rfl⟩ | ⟨rfl, rfl, rfl, hright⟩
      · refine .silent hleaf fun hm => ?_
        cases hm with
        | left h => exact hl h
        | right h => exact hr h
      · rcases hright with ⟨rfl, rfl⟩ | ⟨name, rfl, rfl⟩
        · refine ⟨fun name => ⟨Or.inl, ?_⟩, fun leaf n hin _ => ?_⟩
          · rintro (h | ⟨n, hin⟩)
            · exact h
            · cases hleaf _ _ hin
          · cases hin
            exact ⟨rfl, rfl, Or.inr rfl⟩
        · refine ⟨fun name' => ?_, fun leaf n hin _ => ?_⟩
          · rw [mem_insertName]
            constructor
            · rintro (h | rfl)
              · exact Or.inl h
              · exact Or.inr ⟨false, .here⟩
            · rintro (h | ⟨n, hin⟩)
              · exact Or.inl h
              · cases hleaf _ _ hin
                exact Or.inr rfl
          · cases hin
            exact ⟨rfl, rfl, Or.inl ⟨name, rfl, mem_insertName.mpr (Or.inr rfl)⟩⟩
  | inList left values =>
      simp only [collectSpaceFilterNames] at h
      split at h
      · cases h
      · rename_i hrefs
        cases h
        simp only [Bool.or_eq_true, not_or, Bool.not_eq_true] at hrefs
        refine .silent (fun leaf n hin => by cases hin; rfl) fun hm => ?_
        cases hm with
        | inLeft h => exact not_mentions hrefs.1 h
        | inValue mem h =>
            exact not_mentions (by simpa using List.any_eq_false.mp hrefs.2 _ mem) h
  | elementIn element field =>
      simp only [collectSpaceFilterNames] at h
      split at h
      · cases h
      · rename_i hrefs
        cases h
        simp only [Bool.or_eq_true, beq_iff_eq, not_or, Bool.not_eq_true] at hrefs
        refine .silent (fun leaf n hin => by cases hin; rfl) fun hm => ?_
        cases hm with
        | element h => exact not_mentions hrefs.2 h
        | list => exact hrefs.1 rfl
  | constant value =>
      cases h
      exact .silent (fun leaf n hin => by cases hin; rfl) fun hm => by cases hm
  | fieldPredicate field | textMatch field mode value | regex field pattern =>
      simp only [collectSpaceFilterNames] at h
      exact .onField h (fun leaf n hin => by cases hin; rfl) fun hm => by cases hm; rfl
  | listComprehension kind field iterVar pred =>
      simp only [collectSpaceFilterNames] at h
      exact .onField h (fun leaf n hin => by cases hin; rfl) fun hm => by cases hm; rfl

/-! ### The whole check -/

theorem resolveAll_ok {resolve : String → Except String Unit} {names : List String}
    (h : resolveAll resolve names = .ok ()) : ∀ name ∈ names, resolve name = .ok () := by
  induction names with
  | nil => intro name hmem; exact absurd hmem List.not_mem_nil
  | cons n rest ih =>
      intro name hmem
      rw [resolveAll] at h
      cases hn : resolve n with
      | error e => simp [hn, bind, Except.bind] at h
      | ok u =>
          simp only [hn, bind, Except.bind] at h
          rcases List.mem_cons.mp hmem with rfl | hmem
          · exact hn
          · exact ih h name hmem

theorem validateFilterSpaceAccess_ok {R : Renderer} {resolve : String → Except String Unit}
    {c : Condition} (h : validateFilterSpaceAccess R resolve c = .ok ()) :
    ∃ names, collectSpaceFilterNames c false [] = .ok names ∧
      ∀ name ∈ names, resolve name = .ok () := by
  unfold validateFilterSpaceAccess at h
  cases hr : R.render c with
  | error e => simp [hr, bind, Except.bind, Except.mapError] at h
  | ok s =>
      cases hc : collectSpaceFilterNames c false [] with
      | error e => simp [hr, hc, bind, Except.bind, Except.mapError] at h
      | ok names =>
          simp only [hr, hc, bind, Except.bind, Except.mapError] at h
          exact ⟨names, rfl, fun name hmem =>
            resolveAll_ok h name ((List.perm_insertionSort _ names).mem_iff.mpr hmem)⟩

/-- **In an accepted filter every occurrence of the space field is a comparison
`space == "name"` or `space == null` below no negation, and the returned names are exactly
those compared**; when the whole check passes, each of them was resolved for the caller. -/
theorem space_filter_occurrences (c : Condition) :
    (∀ names, collectSpaceFilterNames c false [] = .ok names →
      (∀ leaf negated, LeafIn leaf negated c → leaf.LeafMentions "space" →
        negated = false ∧ Allowed leaf names) ∧
      (∀ name, name ∈ names ↔ ∃ n, LeafIn (spaceEquals (.string name)) n c)) ∧
    (∀ R resolve, validateFilterSpaceAccess R resolve c = .ok () →
      ∀ leaf negated, LeafIn leaf negated c → leaf.LeafMentions "space" →
        negated = false ∧ (leaf = spaceEquals .null ∨
          ∃ name, leaf = spaceEquals (.string name) ∧ resolve name = .ok ())) := by
  refine ⟨fun names h => ?_, fun R resolve h leaf negated hin hm => ?_⟩
  · have w := collectSpaceFilterNames_walked h
    refine ⟨fun leaf negated hin hm => (w.allowed leaf negated hin hm).2, fun name => ?_⟩
    rw [w.grows]
    simp
  · obtain ⟨names, hnames, hres⟩ := validateFilterSpaceAccess_ok h
    have w := collectSpaceFilterNames_walked hnames
    obtain ⟨-, hneg, ⟨name, rfl, hmem⟩ | rfl⟩ := w.allowed leaf negated hin hm
    · exact ⟨hneg, Or.inr ⟨name, rfl, hres name hmem⟩⟩
    · exact ⟨hneg, Or.inl rfl⟩

def spaceAndNotPinned : Condition :=
  .logical .and (spaceEquals (.string "spaces/a")) (.not (.fieldPredicate "pinned"))

theorem space_filter_occurrences_and_not :
    collectSpaceFilterNames spaceAndNotPinned false [] = .ok ["spaces/a"] ∧
      ∃ n, LeafIn (spaceEquals (.string "spaces/a")) n spaceAndNotPinned :=
  ⟨rfl, (((space_filter_occurrences spaceAndNotPinned).1 ["spaces/a"] rfl).2 "spaces/a").mp
    List.mem_cons_self⟩

/-- `space == null` is accepted, and compares the space with no name. -/
theorem space_null_accepted :
    validateFilterSpaceAccess ⟨memoSchema, .sqlite, 0⟩ (fun _ => .error "not found")
        (spaceEquals .null) = .ok () ∧
      LeafIn (spaceEquals .null) false (spaceEquals .null) ∧
      (spaceEquals .null).LeafMentions "space" ∧
      ¬ ∃ name, spaceEquals .null = spaceEquals (.string name) := by
  refine ⟨rfl, .here, .left .ref, ?_⟩
  rintro ⟨name, h⟩
  cases h

end Memos.Filter

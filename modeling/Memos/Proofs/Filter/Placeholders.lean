/-
Placeholders and arguments of a rendered filter.

A statement is aligned exactly when no constant folds an argument away
(`statement_aligned_iff`).  The failing case is visible in the smallest filter that
has one, `content == "x" && false`: the text is `1 = 0` and the argument stays.

Appended to a query, such a filter leaves one argument more than there are question
marks, and every later `?` is bound one argument too early.  The one escape is a
filter that folds to true, which `AppendConditions` skips together with its arguments.
-/
import Memos.Proofs.Filter.Tree
import Memos.Filter.PostgresQuery

namespace Memos.Filter

open Sql

theorem render_ok {R : Renderer} {c : Condition} {stmt : Statement}
    (h : R.render c = .ok stmt) :
    ∃ r st, TreeRendered R c {} r st ∧ stmt.args = st.args ∧
      stmt.sql = match r with
        | .trivial => none
        | .unsatisfiable => some (.const false)
        | .fragment p => some p := by
  unfold Renderer.render at h
  cases hc : (renderCondition R c).run {} with
  | error e => simp [hc, bind, Except.bind] at h
  | ok pair =>
      obtain ⟨r, st⟩ := pair
      refine ⟨r, st, renderCondition_tree hc, ?_⟩
      cases r <;> simp [hc, bind, Except.bind, pure, Except.pure] at h <;> subst h <;>
        exact ⟨rfl, rfl⟩

/-- The placeholders left in a statement, and the arguments pushed for it. -/
theorem render_counts {R : Renderer} {c : Condition} {stmt : Statement}
    (h : R.render c = .ok stmt) :
    stmt.args.length = c.argCount R.dialect R.schema ∧
      stmt.holes.length = c.keptArgs R.dialect R.schema ∧
      (c.foldsArgument R.dialect R.schema = false → stmt.holes = List.range stmt.args.length) := by
  obtain ⟨r, st, ⟨hpushed, hres⟩, hargs, hsql⟩ := render_ok h
  have hlen : stmt.args.length = c.argCount R.dialect R.schema := by
    rw [hargs, hpushed.length]; exact Nat.zero_add _
  rw [← Condition.keptArgs_eq_iff, hlen]
  unfold Statement.holes
  cases r with
  | trivial =>
      have hc : c.constValue = some true := hres
      have hkept := Condition.keptArgs_of_constValue (d := R.dialect) (S := R.schema)
        (by rw [hc]; rfl : c.constValue.isSome = true)
      rw [hsql]
      exact ⟨rfl, hkept.symm, fun h => by rw [← h, hkept]; rfl⟩
  | unsatisfiable =>
      have hc : c.constValue = some false := hres
      have hkept := Condition.keptArgs_of_constValue (d := R.dialect) (S := R.schema)
        (by rw [hc]; rfl : c.constValue.isSome = true)
      rw [hsql]
      exact ⟨rfl, by simp [hkept], fun h => by rw [← h, hkept]; simp⟩
  | fragment p =>
      have hf : FragmentOf R c {} p st := hres
      rw [hsql]
      refine ⟨rfl, hf.kept, fun h => ?_⟩
      show p.holes = _
      rw [hf.inOrder h, List.range_eq_range']
      rfl

/-- The placeholders left in a statement are some of those of its arguments, in their order. -/
theorem render_within {R : Renderer} {c : Condition} {stmt : Statement}
    (h : R.render c = .ok stmt) : stmt.holes.Sublist (List.range stmt.args.length) := by
  obtain ⟨r, st, ⟨hpushed, hres⟩, hargs, hsql⟩ := render_ok h
  unfold Statement.holes
  cases r with
  | trivial | unsatisfiable =>
      rw [hsql]
      exact List.nil_sublist _
  | fragment p =>
      have hf : FragmentOf R c {} p st := hres
      have hlen : stmt.args.length = c.argCount R.dialect R.schema := by
        rw [hargs, hpushed.length]
        exact Nat.zero_add _
      rw [hsql, hlen, List.range_eq_range']
      exact hf.within

/-- On a dialect that writes `?`, the question marks are the placeholders. -/
theorem questionMarks_text {R : Renderer} (hd : R.dialect ≠ .postgres) (s : Statement) :
    questionMarks (s.text R) = s.holes.length := by
  have hplaceholder : R.placeholder = fun _ => "?" := by
    funext k
    unfold Renderer.placeholder
    split
    · contradiction
    · rfl
  unfold Statement.text Statement.holes
  cases s.sql with
  | none => rfl
  | some p => rw [hplaceholder]; exact questionMarks_toText p

theorem statement_aligned_iff {R : Renderer} (hd : R.dialect ≠ .postgres) {c : Condition}
    {stmt : Statement} (h : R.render c = .ok stmt) :
    stmt.Aligned R ↔ c.foldsArgument R.dialect R.schema = false := by
  obtain ⟨hargs, hkept, horder⟩ := render_counts h
  constructor
  · intro ha
    rw [← Condition.keptArgs_eq_iff, ← hkept, ← hargs, ha.inOrder, List.length_range]
  · intro hfold
    refine ⟨?_, horder hfold⟩
    rw [questionMarks_text hd, horder hfold, List.length_range]

/-! ### Whole queries -/

theorem Query.append_holes (q : Query) (p : Pred) (args : List Value) :
    (q.append p args).holes = q.holes ++ p.holes.map (q.args.length + ·) := by
  simp [Query.append, Query.holes, Clause.holes]

/-- A query never has more placeholders than arguments when its clauses do not. -/
theorem Query.Aligned.append {q : Query} (h : q.Aligned) {p : Pred} {args : List Value}
    (hp : p.holes = List.range args.length) : (q.append p args).Aligned := by
  have hlen : (q.append p args).args.length = q.args.length + args.length := List.length_append
  rw [Query.Aligned, Query.append_holes, h, hp, hlen, List.range_add]

def Query.surplus (q : Query) : Nat := q.args.length - q.holes.length

theorem appendConditions_counts {S : Schema} {d : Dialect} {filters : List Condition}
    {q q' : Query} (h : appendConditions S d filters q = .ok q')
    (hle : q.holes.length ≤ q.args.length) :
    q'.holes.length ≤ q'.args.length ∧ q.surplus ≤ q'.surplus ∧
      (q'.surplus = q.surplus →
        ∀ c ∈ filters, c.constValue = some true ∨ c.foldsArgument d S = false) := by
  induction filters generalizing q with
  | nil =>
      cases h
      exact ⟨hle, Nat.le_refl _, fun _ _ hc => absurd hc (List.not_mem_nil)⟩
  | cons c rest ih =>
      simp only [appendConditions] at h
      cases hr : Renderer.render ⟨S, d, q.args.length⟩ c with
      | error e => simp [hr, bind, Except.bind] at h
      | ok stmt =>
          simp only [hr, bind, Except.bind] at h
          cases hsql : stmt.sql with
          | none =>
              rw [hsql] at h
              obtain ⟨r, st, htree, -, hshape⟩ := render_ok hr
              have htrue : c.constValue = some true := by
                cases r with
                | trivial => exact htree.result
                | unsatisfiable => simp [hsql] at hshape
                | fragment p => simp [hsql] at hshape
              obtain ⟨h₁, h₂, h₃⟩ := ih h hle
              refine ⟨h₁, h₂, fun hs c' hc' => ?_⟩
              rcases List.mem_cons.mp hc' with rfl | hc'
              · exact Or.inl htrue
              · exact h₃ hs c' hc'
          | some p =>
              rw [hsql] at h
              have hholes : stmt.holes = p.holes := by simp [Statement.holes, hsql]
              have hargs : stmt.args.length = c.argCount d S := (render_counts hr).1
              have hkept : p.holes.length = c.keptArgs d S := hholes ▸ (render_counts hr).2.1
              have hkle := Condition.keptArgs_le_argCount (d := d) (S := S) c
              have hlen : (q.append (.paren p) stmt.args).holes.length =
                  q.holes.length + p.holes.length := by
                rw [Query.append_holes, Pred.holes_paren, List.length_append, List.length_map]
              have hargs' : (q.append (.paren p) stmt.args).args.length =
                  q.args.length + stmt.args.length := List.length_append
              obtain ⟨h₁, h₂, h₃⟩ := ih h (by omega)
              unfold Query.surplus at h₂ h₃ ⊢
              refine ⟨h₁, by omega, fun hs c' hc' => ?_⟩
              rcases List.mem_cons.mp hc' with rfl | hc'
              · exact Or.inr ((Condition.keptArgs_eq_iff c').mp (by omega))
              · exact h₃ (by omega) c' hc'

/-- Filters that fold no argument away keep a query aligned. -/
theorem appendConditions_aligned {S : Schema} {d : Dialect} {filters : List Condition}
    {q q' : Query} (hq : q.Aligned) (h : appendConditions S d filters q = .ok q')
    (hfilters : ∀ c ∈ filters, c.constValue = some true ∨ c.foldsArgument d S = false) :
    q'.Aligned := by
  induction filters generalizing q with
  | nil =>
      cases h
      exact hq
  | cons c rest ih =>
      simp only [appendConditions] at h
      have hrest := fun c' hc' => hfilters c' (List.mem_cons_of_mem c hc')
      cases hr : Renderer.render ⟨S, d, q.args.length⟩ c with
      | error e => simp [hr, bind, Except.bind] at h
      | ok stmt =>
          simp only [hr, bind, Except.bind] at h
          cases hsql : stmt.sql with
          | none =>
              rw [hsql] at h
              exact ih hq h hrest
          | some p =>
              rw [hsql] at h
              refine ih (hq.append ?_) h hrest
              have hholes : stmt.holes = p.holes := by simp [Statement.holes, hsql]
              rw [Pred.holes_paren, ← hholes]
              obtain ⟨r, st, htree, -, hshape⟩ := render_ok hr
              rcases hfilters c (List.mem_cons_self) with htrue | hfold
              · -- A filter that folds to true has no SQL to append.
                cases r with
                | trivial => simp [hsql] at hshape
                | unsatisfiable =>
                    have hc : c.constValue = some false := htree.result
                    simp [hc] at htrue
                | fragment p' =>
                    have hc : FragmentOf ⟨S, d, q.args.length⟩ c {} p' st := htree.result
                    simp [hc.open'] at htrue
              · exact (render_counts hr).2.2 hfold

theorem query_aligned_iff {S : Schema} {d : Dialect} {filters : List Condition}
    {q q' : Query} (hq : q.Aligned) (h : appendConditions S d filters q = .ok q') :
    q'.Aligned ↔ ∀ c ∈ filters, c.constValue = some true ∨ c.foldsArgument d S = false := by
  refine ⟨fun hq' => ?_, appendConditions_aligned hq h⟩
  have hlen : q.holes.length = q.args.length := by rw [hq, List.length_range]
  have hlen' : q'.holes.length = q'.args.length := by rw [hq', List.length_range]
  exact (appendConditions_counts h (by omega)).2.2 (by unfold Query.surplus; omega)

/-- **Where `?` is bound by position, a rendered filter is aligned exactly when no constant
folds an argument away, and a query it is appended to exactly when each filter is so or
folds to true.** -/
theorem render_aligned_iff {d : Dialect} (hd : d ≠ .postgres) (S : Schema) :
    (∀ offset c stmt, Renderer.render ⟨S, d, offset⟩ c = .ok stmt →
      (stmt.Aligned ⟨S, d, offset⟩ ↔ c.foldsArgument d S = false)) ∧
    (∀ filters q q', Query.Aligned q → appendConditions S d filters q = .ok q' →
      (q'.Aligned ↔ ∀ c ∈ filters, c.constValue = some true ∨ c.foldsArgument d S = false)) :=
  ⟨fun _ _ _ h => statement_aligned_iff hd h, fun _ _ _ hq h => query_aligned_iff hq h⟩

def contentIsX : Condition :=
  .comparison (.fieldRef "content") .eq (.literal (.string "x"))

theorem render_aligned_iff_contentIsX :
    Dialect.sqlite ≠ .postgres ∧ (appendConditions memoSchema .sqlite [contentIsX] {}).isOk ∧
      ∀ q', appendConditions memoSchema .sqlite [contentIsX] {} = .ok q' → q'.Aligned :=
  ⟨by decide, rfl, fun q' h =>
    ((render_aligned_iff (by decide) memoSchema).2 [contentIsX] {} q' rfl h).mpr
      fun c hc => Or.inr (by rw [List.mem_singleton.mp hc]; rfl)⟩

/-- `content == "x" && false` keeps the argument of the side it throws away. -/
theorem content_and_false_misaligned :
    ∃ stmt, Renderer.render ⟨memoSchema, .sqlite, 0⟩
        (.logical .and contentIsX (.constant false)) = .ok stmt ∧
      stmt.text ⟨memoSchema, .sqlite, 0⟩ = "1 = 0" ∧ stmt.args = [.text "x"] ∧
      ¬ stmt.Aligned ⟨memoSchema, .sqlite, 0⟩ := by
  refine ⟨{ sql := some (.const false), args := [.text "x"] }, rfl, by decide, rfl, ?_⟩
  intro h
  exact absurd h.inOrder (by decide)

end Memos.Filter

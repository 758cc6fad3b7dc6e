/-
What the list leaves render to: comprehensions, memberships and text matches.

Each element of a list is tested by a condition over the element alone, and the
dialects differ in how they quantify it (`EXISTS`, a count, the two together for
`all`).  `comprehensionSQL_eval` is the one statement about quantifiers; membership
in a tag list is the comprehension that asks for equality.
-/
import Memos.Proofs.Filter.Leaves

namespace Memos.Filter

open Sql Kleene

/-! ### One element -/

/-- What is known of a condition over one element of a list. -/
def ElementRendered (holds : Engine → String → Bool) (n : Nat)
    (st : RenderState) (p : Pred) (st' : RenderState) : Prop :=
  Emits st st' p.holes n ∧
    ∀ E env, Binds env st'.args →
      p.accepted E env = true ∧
        ∀ s, p.eval E { env with element := .text s } = .ofBool (holds E s)

theorem tagElementTextMatch_spec {R : Renderer} {mode : TextMatchMode} {value : String}
    {st st' : RenderState} {p : Pred}
    (h : tagElementTextMatch R tagElement mode value st = .ok (p, st')) :
    ElementRendered (fun E => elementMatches E R.dialect mode value)
      (if value = "" then 0 else if mode = .matchSuffix ∧ R.dialect = .sqlite then 2 else 1)
      st p st' := by
  unfold tagElementTextMatch at h
  unfold elementMatches ElementRendered
  by_cases hv : value = ""
  · rw [if_pos hv, pure_ok] at h
    obtain ⟨rfl, rfl⟩ := h
    simp only [if_pos hv]
    exact ⟨by simpa using Emits.none st', fun E env _ => ⟨by simp, fun s => by simp⟩⟩
  · rw [if_neg hv] at h
    simp only [if_neg hv]
    cases hd : R.dialect <;> simp only [hd] at h
    case sqlite =>
      cases mode <;> simp only [bind_ok, addArg_ok, pure_ok] at h
      case matchContains | matchPrefix =>
        obtain ⟨_, _, ⟨rfl, rfl⟩, rfl, rfl⟩ := h
        refine ⟨by simpa [tagElement] using Emits.push st (.text value), fun E env hB => ?_⟩
        refine ⟨by simp, fun s => ?_⟩
        simp [tagElement, hB.pushed, Engine.applyFn₂, Value.strict₂, Engine.textOf,
          Engine.compareValues, Op.onInt]
      case matchSuffix =>
        obtain ⟨_, _, ⟨rfl, rfl⟩, _, _, ⟨rfl, rfl⟩, rfl, rfl⟩ := h
        refine ⟨?_, fun E env hB => ⟨by simp, fun s => ?_⟩⟩
        · simpa [tagElement] using (Emits.push st (.text value)).append (Emits.push _ (.text value))
        · have hfirst : env.arg st.placeholderCounter = .text value :=
            (hB.mono (Emits.push _ _)).pushed
          simp [tagElement, hfirst, hB.pushed, Engine.applyFn₂, Engine.applyFn, Value.strict,
            Value.strict₂, Engine.textOf, Engine.intOf, Engine.compareValues]
    case mysql =>
      simp only [bind_ok, addArg_ok, pure_ok] at h
      obtain ⟨_, _, ⟨rfl, rfl⟩, rfl, rfl⟩ := h
      refine ⟨by simpa [tagElement] using Emits.push st _, fun E env hB => ⟨by simp, fun s => ?_⟩⟩
      simp [tagElement, hB.pushed, Value.strict, Engine.applyCast, Engine.textOf,
        Engine.matchValues]
    case postgres =>
      simp only [bind_ok, addArg_ok, pure_ok] at h
      obtain ⟨_, _, ⟨rfl, rfl⟩, rfl, rfl⟩ := h
      refine ⟨by simpa [tagElement] using Emits.push st _, fun E env hB => ⟨by simp, fun s => ?_⟩⟩
      simp [tagElement, hB.pushed, Value.strict, Engine.textOf, Engine.matchValues]

theorem tagElementPredicateSQL_spec {R : Renderer} {pred : PredicateExpr}
    {st st' : RenderState} {p : Pred}
    (h : tagElementPredicateSQL R tagElement pred st = .ok (p, st')) :
    ElementRendered (fun E => elementHolds E R.dialect pred) (predicateArgs R.dialect pred)
      st p st' := by
  cases pred with
  | startsWith text =>
      have hm : tagElementTextMatch R tagElement .matchPrefix text st = .ok (p, st') := h
      have hspec := tagElementTextMatch_spec hm
      simp only [reduceCtorEq, false_and, if_false] at hspec
      exact hspec
  | endsWith text =>
      have hm : tagElementTextMatch R tagElement .matchSuffix text st = .ok (p, st') := h
      have hspec := tagElementTextMatch_spec hm
      simp only [true_and] at hspec
      exact hspec
  | contains text =>
      have hm : tagElementTextMatch R tagElement .matchContains text st = .ok (p, st') := h
      have hspec := tagElementTextMatch_spec hm
      simp only [reduceCtorEq, false_and, if_false] at hspec
      exact hspec
  | equals value =>
      unfold tagElementPredicateSQL at h
      simp only [bind_ok, addArg_ok] at h
      obtain ⟨_, _, ⟨rfl, rfl⟩, h⟩ := h
      cases hd : R.dialect <;> simp only [hd, pure_ok] at h <;> obtain ⟨rfl, rfl⟩ := h <;>
        refine ⟨by simpa [tagElement, predicateArgs] using Emits.push st _,
          fun E env hB => ⟨by simp, fun s => ?_⟩⟩ <;>
        simp [tagElement, hB.pushed, Value.strict, Engine.applyCast, Engine.textOf,
          Engine.compareValues, elementHolds]

/-! ### Quantifiers -/

theorem comprehensionSQL_holes (d : Dialect) (arr : Expr) (cond : Pred)
    (kind : ComprehensionKind) (harr : arr.holes = []) :
    (comprehensionSQL d arr cond kind).holes = cond.holes := by
  cases kind <;> cases d <;>
    simp [comprehensionSQL, anyMatch, noMatch, elementCount, harr]

theorem comprehensionSQL_accepted {d : Dialect} {arr : Expr} {cond : Pred} {E : Engine}
    {env : Env} (kind : ComprehensionKind) (h : cond.accepted E env = true) :
    (comprehensionSQL d arr cond kind).accepted E env = true := by
  cases kind <;> cases d <;> simp [comprehensionSQL, anyMatch, noMatch, h]

section Elements

variable {arr : Expr} {cond : Pred} {E : Engine} {env : Env} {l : List String} {q : String → Bool}

theorem elements_any (harr : arr.eval E env = .json (.arr (l.map .str)))
    (hcond : ∀ s, cond.eval E { env with element := .text s } = .ofBool (q s)) :
    ((Engine.elementsOf (arr.eval E env)).any fun v =>
      (cond.eval E { env with element := v }).isTrue) = l.any q := by
  rw [harr, Engine.elementsOf, List.map_map, List.any_map]
  congr 1
  funext s
  simp [Engine.ofScalar, hcond]

theorem elements_countP (harr : arr.eval E env = .json (.arr (l.map .str)))
    (hcond : ∀ s, cond.eval E { env with element := .text s } = .ofBool (q s)) :
    ((Engine.elementsOf (arr.eval E env)).countP fun v =>
      (cond.eval E { env with element := v }).isTrue) = l.countP q := by
  rw [harr, Engine.elementsOf, List.map_map, List.countP_map]
  congr 1
  funext s
  simp [Engine.ofScalar, hcond]

theorem anyMatch_eval (d : Dialect) (harr : arr.eval E env = .json (.arr (l.map .str)))
    (hcond : ∀ s, cond.eval E { env with element := .text s } = .ofBool (q s)) :
    (anyMatch d arr cond).eval E env = .ofBool (l.any q) := by
  cases d
  case mysql =>
    simp only [anyMatch, Pred.eval, elements_countP harr hcond, Op.onInt]
    congr 1
    rw [Bool.eq_iff_iff, decide_eq_true_iff, List.any_eq_true, ← List.countP_pos_iff]
    omega
  all_goals simp only [anyMatch, Pred.eval, elements_any harr hcond]

theorem noMatch_eval (d : Dialect) (harr : arr.eval E env = .json (.arr (l.map .str)))
    (hcond : ∀ s, cond.eval E { env with element := .text s } = .ofBool (q s)) :
    (noMatch d arr cond).eval E env = .ofBool (!l.any q) := by
  cases d
  case mysql =>
    simp only [noMatch, Pred.eval, elements_countP harr hcond, Op.onInt]
    congr 1
    rw [Bool.eq_iff_iff, decide_eq_true_iff, Bool.not_eq_true', List.any_eq_false,
      Int.ofNat_inj, List.countP_eq_zero]
  all_goals simp only [noMatch, Pred.eval, elements_any harr hcond]

theorem elementCount_eval (d : Dialect) (harr : arr.eval E env = .json (.arr (l.map .str))) :
    (elementCount d arr).eval E env = .int l.length := by
  cases d <;> simp [elementCount, harr, Value.strict, Engine.applyFn]

/-- **A comprehension over the elements of an array is the quantifier it names**, on every
dialect, when the condition on one element is decided. -/
theorem comprehensionSQL_eval (d : Dialect) (kind : ComprehensionKind)
    (harr : arr.eval E env = .json (.arr (l.map .str)))
    (hcond : ∀ s, cond.eval E { env with element := .text s } = .ofBool (q s)) :
    (comprehensionSQL d arr cond kind).eval E env = .ofBool (comprehensionHolds kind q l) := by
  cases kind with
  | exists' => exact anyMatch_eval d harr hcond
  | all =>
      -- `all` is rendered as "not empty, and no element fails".
      have hneg : ∀ s, (Pred.not cond).eval E { env with element := .text s } =
          .ofBool (!q s) := fun s => by rw [Pred.eval, hcond, Truth.not_ofBool]
      have hall : (!l.any fun s => !q s) = l.all q := by simp [List.all_eq_not_any_not]
      simp only [comprehensionSQL, Pred.eval, elementCount_eval d harr, noMatch_eval d harr hneg,
        Expr.eval, Engine.compareValues, Truth.and_ofBool, hall, comprehensionHolds, Op.onInt]
      simp
  | existsOne =>
      simp only [comprehensionSQL, Pred.eval, elements_countP harr hcond, comprehensionHolds,
        Op.onInt]
      congr 2
      exact propext (by omega)

end Elements

theorem renderTagComprehension_spec {R : Renderer} {f : Field} {pred : PredicateExpr}
    {kind : ComprehensionKind} {st st' : RenderState} {p : Pred}
    (h : renderTagComprehension R f pred kind st = .ok (p, st')) :
    Emits st st' p.holes (predicateArgs R.dialect pred) ∧
      ∀ E env l, Binds env st'.args →
        (jsonArrayOrEmpty R.dialect f).eval E env = .json (.arr (l.map .str)) →
        p.eval E env = .ofBool (comprehensionHolds kind (elementHolds E R.dialect pred) l) ∧
        p.accepted E env = true := by
  unfold renderTagComprehension at h
  simp only [bind_ok, pure_ok] at h
  obtain ⟨cond, _, hcond, rfl, rfl⟩ := h
  obtain ⟨hemits, hmeans⟩ := tagElementPredicateSQL_spec hcond
  refine ⟨by rwa [comprehensionSQL_holes _ _ _ _ (jsonArrayOrEmpty_holes _ _)], ?_⟩
  intro E env l hB hlist
  obtain ⟨hacc, heval⟩ := hmeans E env hB
  exact ⟨comprehensionSQL_eval _ kind hlist heval, comprehensionSQL_accepted kind hacc⟩

theorem renderListComprehension_spec {R : Renderer} {kind : ComprehensionKind}
    {name iterVar : String} {pred : PredicateExpr} {st st' : RenderState} {r : RenderResult}
    (h : renderListComprehension R kind name pred st = .ok (r, st')) :
    LeafRendered R (.listComprehension kind name iterVar pred) st r st' := by
  unfold renderListComprehension at h
  cases hf : R.schema.field? name with
  | none => simp [hf] at h
  | some f =>
      simp only [hf] at h
      by_cases hk : f.kind = .jsonList
      · simp only [hk, ne_eq, not_true_eq_false, if_false, bind_ok, pure_ok] at h
        obtain ⟨p, _, hp, rfl, rfl⟩ := h
        obtain ⟨hemits, hmeans⟩ := renderTagComprehension_spec hp
        exact ⟨p, rfl, hemits, fun E env V hV hB => hmeans E env _ hB (hV.list name f hf hk)⟩
      · simp [hk] at h

theorem renderElementInCondition_spec {R : Renderer} {element : ValueExpr} {name : String}
    {st st' : RenderState} {r : RenderResult}
    (h : renderElementInCondition R element name st = .ok (r, st')) :
    LeafRendered R (.elementIn element name) st r st' := by
  unfold renderElementInCondition at h
  cases hf : R.schema.field? name with
  | none => simp [hf] at h
  | some f =>
      simp only [hf] at h
      by_cases hk : f.kind = .jsonList
      · simp only [hk, ne_eq, not_true_eq_false, if_false, bind_ok, expectLiteral_ok] at h
        obtain ⟨lit, _, ⟨rfl, rfl⟩, h⟩ := h
        cases lit <;> simp only [throw_ok, bind_ok, pure_ok] at h
        obtain ⟨p, _, hp, rfl, rfl⟩ := h
        obtain ⟨hemits, hmeans⟩ := renderTagComprehension_spec hp
        exact ⟨p, rfl, hemits, fun E env V hV hB => hmeans E env _ hB (hV.list name f hf hk)⟩
      · simp [hk] at h

/-! ### Membership lists -/

theorem renderTagConditions_spec {R : Renderer} {f : Field} {values : List ValueExpr}
    {st st' : RenderState} {ps : List Pred}
    (h : renderTagConditions R f values st = .ok (ps, st')) :
    Emits st st' (ps.flatMap Pred.holes) values.length ∧
      ∀ E env l, Binds env st'.args →
        (jsonArrayOrEmpty R.dialect f).eval E env = .json (.arr (l.map .str)) →
        Truth.any (ps.map (Pred.eval E env)) = .ofBool (values.any (asksFor l)) ∧
        ps.all (Pred.accepted E env) = true := by
  induction values generalizing st ps with
  | nil =>
      simp only [renderTagConditions, pure_ok] at h
      obtain ⟨rfl, rfl⟩ := h
      exact ⟨Emits.none st', fun _ _ _ _ _ => ⟨rfl, rfl⟩⟩
  | cons v rest ih =>
      simp only [renderTagConditions, bind_ok, expectLiteral_ok] at h
      obtain ⟨lit, _, ⟨rfl, rfl⟩, h⟩ := h
      cases lit <;> simp only [throw_ok, bind_ok, pure_ok] at h
      rename_i s _
      obtain ⟨p, _, hp, ps, _, hps, rfl, rfl⟩ := h
      obtain ⟨hemits, hmeans⟩ := renderTagComprehension_spec hp
      obtain ⟨hrest, hmeansRest⟩ := ih hps
      refine ⟨?_, fun E env l hB hlist => ?_⟩
      · rw [List.flatMap_cons, List.length_cons, Nat.add_comm]
        exact hemits.append hrest
      · obtain ⟨heval, hacc⟩ := hmeans E env l (hB.mono hrest) hlist
        obtain ⟨hevalRest, haccRest⟩ := hmeansRest E env l hB hlist
        refine ⟨?_, by rw [List.all_cons, hacc, haccRest]; rfl⟩
        rw [List.map_cons, Truth.any, heval, hevalRest, Truth.or_ofBool, List.any_cons]
        rfl

theorem joinOr_holes (p : Pred) (ps : List Pred) :
    (joinOr p ps).holes = (p :: ps).flatMap Pred.holes := by
  induction ps generalizing p with
  | nil => simp [joinOr]
  | cons q rest ih => simp only [joinOr, Pred.holes_or, ih, List.flatMap_cons]

theorem joinOr_eval (E : Engine) (env : Env) (p : Pred) (ps : List Pred) :
    (joinOr p ps).eval E env = Truth.any ((p :: ps).map (Pred.eval E env)) := by
  induction ps generalizing p with
  | nil => simp [joinOr, Truth.any]
  | cons q rest ih => rw [joinOr, Pred.eval, ih]; rfl

theorem joinOr_accepted (E : Engine) (env : Env) (p : Pred) (ps : List Pred) :
    (joinOr p ps).accepted E env = (p :: ps).all (Pred.accepted E env) := by
  induction ps generalizing p with
  | nil => simp [joinOr]
  | cons q rest ih => rw [joinOr, Pred.accepted, ih]; rfl

/-- The disjunction of the conditions of a tag list, however many there are. -/
theorem renderTagInList_disjunction {ps : List Pred} {r : RenderResult} {st st' : RenderState}
    (h : (match ps with
      | [] => pure (.fragment (.const false))
      | [condition] => pure (.fragment condition)
      | condition :: rest => pure (.fragment (.paren (joinOr condition rest))) :
        RenderM RenderResult) st = .ok (r, st')) :
    st' = st ∧ ∃ p, r = .fragment p ∧ p.holes = ps.flatMap Pred.holes ∧
      (∀ E env, p.eval E env = Truth.any (ps.map (Pred.eval E env))) ∧
      (∀ E env, p.accepted E env = ps.all (Pred.accepted E env)) := by
  match ps, h with
  | [], h =>
      obtain ⟨rfl, rfl⟩ := pure_ok.mp h
      exact ⟨rfl, _, rfl, by simp, fun _ _ => rfl, fun _ _ => by simp⟩
  | [p], h =>
      obtain ⟨rfl, rfl⟩ := pure_ok.mp h
      exact ⟨rfl, _, rfl, by simp, fun _ _ => by simp [Truth.any], fun _ _ => by simp⟩
  | p :: q :: rest, h =>
      obtain ⟨rfl, rfl⟩ := pure_ok.mp h
      refine ⟨rfl, _, rfl, ?_, fun E env => ?_, fun E env => ?_⟩
      · rw [Pred.holes_paren, joinOr_holes]
      · rw [Pred.eval, joinOr_eval]
      · rw [Pred.accepted, joinOr_accepted]

theorem renderTagInList_spec {R : Renderer} {values : List ValueExpr}
    {st st' : RenderState} {r : RenderResult}
    (h : renderTagInList R values st = .ok (r, st')) :
    LeafRendered R (.inList (.fieldRef "tag") values) st r st' := by
  unfold renderTagInList at h
  cases hres : R.schema.resolveAlias "tag" with
  | none => simp [hres] at h
  | some f =>
      simp only [hres, bind_ok] at h
      obtain ⟨ps, _, hps, h⟩ := h
      obtain ⟨hemits, hmeans⟩ := renderTagConditions_spec hps
      obtain ⟨rfl, p, rfl, hholes, heval, hacc⟩ := renderTagInList_disjunction h
      refine ⟨p, rfl, hholes ▸ hemits, fun E env V hV hB => ?_⟩
      have hf := Schema.resolveAlias_field? hres
      obtain ⟨hany, hall⟩ := hmeans E env _ hB (hV.list f.name f hf (hV.tagList f hres))
      refine ⟨?_, by rw [hacc, hall]; simp [Condition.leafAccepted]⟩
      rw [heval, hany]
      simp [Condition.truth, inListTruth, tagInListTruth, hres]

theorem inListPlaceholders_spec {f : Field} {values : List ValueExpr}
    {st st' : RenderState} {ks : List Nat}
    (h : inListPlaceholders f values st = .ok (ks, st')) :
    Emits st st' ks values.length ∧
      ∀ env, Binds env st'.args → ks.map env.arg = values.filterMap (memberArg? f) := by
  induction values generalizing st ks with
  | nil =>
      simp only [inListPlaceholders, pure_ok] at h
      obtain ⟨rfl, rfl⟩ := h
      exact ⟨Emits.none st', fun _ _ => rfl⟩
  | cons v rest ih =>
      simp only [inListPlaceholders, bind_ok, expectLiteral_ok, lift_ok, get_ok, addArg_ok,
        pure_ok] at h
      obtain ⟨lit, _, ⟨rfl, rfl⟩, value, s, ⟨hv, rfl⟩, _, _, ⟨rfl, rfl⟩, _, _, ⟨rfl, rfl⟩,
        ks, _, hks, rfl, rfl⟩ := h
      obtain ⟨hrest, hmeans⟩ := ih hks
      refine ⟨?_, fun env hB => ?_⟩
      · rw [List.length_cons, Nat.add_comm]
        exact (Emits.push _ value).append hrest
      · have hmember : memberArg? f (.literal lit) = some value := by
          simp [memberArg?, hv, Except.toOption]
        rw [List.map_cons, List.filterMap_cons_some hmember, hmeans env hB,
          (hB.mono hrest).pushed]

theorem renderInCondition_spec {R : Renderer} {left : ValueExpr} {values : List ValueExpr}
    {st st' : RenderState} {r : RenderResult}
    (h : renderInCondition R left values st = .ok (r, st')) :
    LeafRendered R (.inList left values) st r st' := by
  cases left with
  | fieldRef name =>
      simp only [renderInCondition] at h
      by_cases htag : name = "tag"
      · subst htag
        exact renderTagInList_spec (by simpa using h)
      · rw [if_neg htag] at h
        cases hf : R.schema.field? name with
        | none => simp [hf] at h
        | some f =>
            simp only [hf] at h
            by_cases hk : f.kind = .scalar
            · simp only [hk, ne_eq, not_true_eq_false, if_false, renderScalarInCondition,
                bind_ok, pure_ok] at h
              obtain ⟨ks, _, hks, rfl, rfl⟩ := h
              obtain ⟨hemits, hmeans⟩ := inListPlaceholders_spec hks
              refine ⟨_, rfl, by simpa [Field.columnExpr_holes, Condition.leafArgs] using hemits, ?_⟩
              intro E env V hV hB
              constructor
              · rw [Pred.eval, hV.value name f hf, Condition.truth, inListTruth, if_neg htag, hf]
                simp only [← hmeans env hB, List.map_map]
                rfl
              · have hempty : ks.isEmpty = values.isEmpty := by
                  have hlen : ks.length = values.length := by
                    rw [hemits.inOrder, List.length_range']
                  cases ks <;> cases values <;> simp_all
                rw [Pred.accepted, hempty, Condition.leafAccepted, decide_eq_false htag]
                rfl
            · simp [hk] at h
  | literal _ => simp [renderInCondition] at h
  | function _ _ => simp [renderInCondition] at h
  | fieldAccessor _ _ => simp [renderInCondition] at h

/-! ### Texts -/

theorem renderTextMatch_spec {R : Renderer} {name value : String} {mode : TextMatchMode}
    {st st' : RenderState} {r : RenderResult}
    (h : renderTextMatch R name mode value st = .ok (r, st')) :
    LeafRendered R (.textMatch name mode value) st r st' := by
  unfold renderTextMatch at h
  cases hf : R.schema.field? name with
  | none => simp [hf] at h
  | some f =>
      simp only [hf, foldedLike, bind_ok, addArg_ok, pure_ok] at h
      obtain ⟨p, _, ⟨_, _, ⟨rfl, rfl⟩, hp⟩, rfl, rfl⟩ := h
      refine ⟨p, rfl, ?_⟩
      cases hd : R.dialect <;> simp only [hd, pure_ok] at hp <;> obtain ⟨rfl, rfl⟩ := hp <;>
        refine ⟨by simpa [Field.columnExpr_holes, Condition.leafArgs] using Emits.push st _,
          fun E env V hV hB => ⟨?_, by simp [Condition.leafAccepted]⟩⟩ <;>
        have hval := hV.value name f hf <;> rw [hd] at hval <;>
        simp [hval, hB.pushed, Condition.truth, textMatchTruth, Value.strict, Engine.applyFn]

theorem renderRegex_spec {R : Renderer} {name pattern : String}
    {st st' : RenderState} {r : RenderResult}
    (h : renderRegex R name pattern st = .ok (r, st')) :
    LeafRendered R (.regex name pattern) st r st' := by
  unfold renderRegex at h
  cases hf : R.schema.field? name with
  | none => simp [hf] at h
  | some f =>
      simp only [hf, bind_ok, addArg_ok] at h
      obtain ⟨_, _, ⟨rfl, rfl⟩, h⟩ := h
      unfold LeafRendered
      cases hd : R.dialect <;> simp only [hd, pure_ok] at h <;> obtain ⟨rfl, rfl⟩ := h <;>
        refine ⟨_, rfl, by simpa [Field.columnExpr_holes, Condition.leafArgs] using Emits.push st _,
          fun E env V hV hB => ⟨?_, ?_⟩⟩ <;>
        have hval := hV.value name f hf <;> rw [hd] at hval <;>
        simp [hval, hB.pushed, Condition.truth, regexOp, Condition.leafAccepted, Engine.textOf]

end Memos.Filter

/-
From the leaves to the whole tree.

The induction is on the condition tree, and what it carries (`TreeRendered`) says for
each of the three shapes of a result what the tree was: a flag means that constants
decide the tree, a fragment that they do not.  A fragment's value is the meaning of
the tree (`render_sound` reads this off at the root), and its placeholders are those
of the leaves that survived folding.

The binary nodes go by what folding did to them: it kept both sides, dropped a neutral
side, or let one side decide.
-/

namespace Memos.Filter

open Sql Kleene

/-! ### Constants

A tree that constants decide has the decided value everywhere, and nothing in it can
make the engine refuse.
-/

namespace Condition

variable {E : Engine} {d : Dialect} {S : Schema} {V : RowView}

theorem truth_of_constValue {c : Condition} {b : Bool} (h : c.constValue = some b) :
    c.truth E d S V = .ofBool b := by
  induction c generalizing b with
  | constant value =>
      cases h
      rfl
  | not expr ih =>
      obtain ⟨b', hb', rfl⟩ := Option.map_eq_some_iff.mp h
      rw [truth, ih hb', Truth.not_ofBool]
  | logical op left right ihl ihr =>
      cases op <;> cases hl : left.constValue with
        | none =>
          cases hr : right.constValue with
          | none => simp [constValue, hl, hr] at h
          | some b' =>
            cases b' <;> simp [constValue, hl, hr] at h
            all_goals
              subst h
              rw [truth, ihr hr]
              simp [Truth.ofBool]
        | some a =>
          cases hr : right.constValue with
          | none =>
            cases a <;> simp [constValue, hl, hr] at h
            all_goals
              subst h
              rw [truth, ihl hl]
              rfl
          | some b' =>
            cases a <;> cases b' <;> simp [constValue, hl, hr] at h <;> subst h <;>
              rw [truth, ihl hl, ihr hr] <;> rfl
  | _ => simp [constValue] at h

theorem accepted_of_constValue {c : Condition} (h : c.constValue.isSome = true) :
    c.accepted E = true := by
  induction c with
  | constant value => rfl
  | not expr ih => exact ih (by simpa [constValue] using h)
  | logical op left right _ _ => rw [accepted, h, Bool.true_or]
  | _ => simp [constValue] at h

/-! ### Kept and folded arguments -/

theorem keptArgs_of_constValue {c : Condition} (h : c.constValue.isSome = true) :
    c.keptArgs d S = 0 := by
  induction c with
  | constant value => rfl
  | not expr ih => exact ih (by simpa [constValue] using h)
  | logical op left right _ _ => rw [keptArgs, if_pos h]
  | _ => simp [constValue] at h

theorem keptArgs_le_argCount (c : Condition) : c.keptArgs d S ≤ c.argCount d S := by
  induction c with
  | logical op left right ihl ihr =>
      rw [keptArgs, argCount]
      split <;> omega
  | not expr ih => exact ih
  | _ => exact Nat.le_refl _

theorem foldsArgument_of_argCount {c : Condition} (h : c.argCount d S = 0) :
    c.foldsArgument d S = false := by
  induction c with
  | logical op left right ihl ihr =>
      rw [argCount] at h
      have hl : left.argCount d S = 0 := by omega
      have hr : right.argCount d S = 0 := by omega
      simp [foldsArgument, hl, hr, ihl hl, ihr hr]
  | not expr ih => exact ih h
  | _ => rfl

/-- Every argument keeps its placeholder exactly when no argument is folded away. -/
theorem keptArgs_eq_iff (c : Condition) :
    c.keptArgs d S = c.argCount d S ↔ c.foldsArgument d S = false := by
  induction c with
  | logical op left right ihl ihr =>
      have hlel := keptArgs_le_argCount (d := d) (S := S) left
      have hler := keptArgs_le_argCount (d := d) (S := S) right
      rw [keptArgs, argCount, foldsArgument]
      by_cases hc : (constValue (.logical op left right)).isSome = true
      · rw [if_pos hc, hc, Bool.true_and]
        constructor
        · intro h
          have hl : left.argCount d S = 0 := by omega
          have hr : right.argCount d S = 0 := by omega
          simp [hl, hr, foldsArgument_of_argCount hl, foldsArgument_of_argCount hr]
        · intro h
          simp only [Bool.or_eq_false_iff, decide_eq_false_iff_not] at h
          omega
      · rw [if_neg hc, eq_false_of_ne_true hc, Bool.false_and, Bool.false_or,
          Bool.or_eq_false_iff, ← ihl, ← ihr]
        omega
  | not expr ih => exact ih
  | _ => simp [keptArgs, argCount, foldsArgument]

end Condition

/-! ### The induction over the tree -/

/-- What is known of a fragment rendered for a tree that constants do not decide. -/
structure FragmentOf (R : Renderer) (c : Condition) (st : RenderState) (p : Pred)
    (st' : RenderState) : Prop where
  open' : c.constValue = none
  kept : p.holes.length = c.keptArgs R.dialect R.schema
  within : p.holes.Sublist (List.range' st.args.length (c.argCount R.dialect R.schema))
  means : ∀ E env V, Represents R E env V → Binds env st'.args →
    p.eval E env = c.truth E R.dialect R.schema V ∧ p.accepted E env = c.accepted E

/-- Where no argument is folded away, the placeholders are those of all arguments. -/
theorem FragmentOf.inOrder {R : Renderer} {c : Condition} {st st' : RenderState} {p : Pred}
    (h : FragmentOf R c st p st')
    (all : c.keptArgs R.dialect R.schema = c.argCount R.dialect R.schema) :
    p.holes = List.range' st.args.length (c.argCount R.dialect R.schema) :=
  h.within.eq_of_length (by rw [h.kept, all, List.length_range'])

/-- What a result says of the tree it was rendered for. -/
def ResultOf (R : Renderer) (c : Condition) (st : RenderState) (r : RenderResult)
    (st' : RenderState) : Prop :=
  match r with
  | .trivial => c.constValue = some true
  | .unsatisfiable => c.constValue = some false
  | .fragment p => FragmentOf R c st p st'

def Pushed (st st' : RenderState) (n : Nat) : Prop :=
  ∃ vals : List Value, vals.length = n ∧ st'.args = st.args ++ vals

structure TreeRendered (R : Renderer) (c : Condition) (st : RenderState) (r : RenderResult)
    (st' : RenderState) : Prop where
  pushed : Pushed st st' (c.argCount R.dialect R.schema)
  result : ResultOf R c st r st'

theorem Pushed.append {st st₁ st' : RenderState} {m n : Nat} (first : Pushed st st₁ m)
    (second : Pushed st₁ st' n) : Pushed st st' (m + n) := by
  obtain ⟨v₁, hv₁, hs₁⟩ := first
  obtain ⟨v₂, hv₂, hs₂⟩ := second
  exact ⟨v₁ ++ v₂, by rw [List.length_append, hv₁, hv₂], by rw [hs₂, hs₁, List.append_assoc]⟩

theorem Pushed.length {st st' : RenderState} {n : Nat} (h : Pushed st st' n) :
    st'.args.length = st.args.length + n := by
  obtain ⟨v, hv, hs⟩ := h
  rw [hs, List.length_append, hv]

theorem Pushed.binds {st st' : RenderState} {n : Nat} (h : Pushed st st' n) {env : Env}
    (hB : Binds env st'.args) : Binds env st.args := by
  obtain ⟨vals, -, hargs⟩ := h
  intro k v hk
  have hlt : k < st.args.length := (List.getElem?_eq_some_iff.mp hk).1
  exact hB k v (by rw [hargs, List.getElem?_append_left hlt, hk])

section Nodes

variable {R : Renderer} {st st₁ st' : RenderState} {left right : Condition}

theorem LeafRendered.tree {c : Condition} {r : RenderResult} (h : LeafRendered R c st r st')
    (hconst : c.constValue = none)
    (hargs : c.argCount R.dialect R.schema = c.leafArgs R.dialect R.schema)
    (hkept : c.keptArgs R.dialect R.schema = c.leafArgs R.dialect R.schema)
    (hacc : ∀ E, c.accepted E = c.leafAccepted E) : TreeRendered R c st r st' := by
  obtain ⟨p, rfl, ⟨hpushed, horder⟩, hmeans⟩ := h
  refine ⟨by rw [hargs]; exact hpushed, hconst, ?_, ?_, ?_⟩
  · rw [hkept, horder, List.length_range']
  · have all : p.holes = List.range' st.args.length (c.argCount R.dialect R.schema) :=
      hargs ▸ horder
    exact all ▸ .refl _
  · intro E env V hV hB
    rw [hacc]
    exact hmeans E env V hV hB

def joinPred : LogicalOperator → Pred → Pred → Pred
  | .and, p, q => .and p q
  | .or, p, q => .or p q

/-- The constant an operator can do without. -/
def LogicalOperator.neutral : LogicalOperator → Bool
  | .and => true
  | .or => false

theorem constValue_open (op : LogicalOperator) (hl : left.constValue = none)
    (hr : right.constValue = none) : (Condition.logical op left right).constValue = none := by
  cases op <;> simp [Condition.constValue, hl, hr]

theorem TreeRendered.both {op : LogicalOperator} {p q : Pred}
    (hl : TreeRendered R left st (.fragment p) st₁)
    (hr : TreeRendered R right st₁ (.fragment q) st') :
    TreeRendered R (.logical op left right) st (.fragment (.paren (joinPred op p q))) st' := by
  obtain ⟨hpl, hfl⟩ := hl
  obtain ⟨hpr, hfr⟩ := hr
  have hopen := constValue_open op hfl.open' hfr.open'
  have hkept : (Condition.logical op left right).keptArgs R.dialect R.schema =
      left.keptArgs R.dialect R.schema + right.keptArgs R.dialect R.schema := by
    rw [Condition.keptArgs, hopen]; rfl
  have hholes : (Pred.paren (joinPred op p q)).holes = p.holes ++ q.holes := by
    cases op <;> simp [joinPred]
  refine ⟨hpl.append hpr, hopen, ?_, ?_, ?_⟩
  · rw [hholes, hkept, List.length_append, hfl.kept, hfr.kept]
  · have later := hfr.within
    rw [hpl.length] at later
    rw [hholes, Condition.argCount, ← List.range'_append_1]
    exact hfl.within.append later
  · intro E env V hV hB
    obtain ⟨hel, hal⟩ := hfl.means E env V hV (hpr.binds hB)
    obtain ⟨her, har⟩ := hfr.means E env V hV hB
    have hacc : (Condition.logical op left right).accepted E =
        (left.accepted E && right.accepted E) := by
      rw [Condition.accepted, hopen]; rfl
    rw [hacc]
    cases op <;> simp [joinPred, hel, her, hal, har, Condition.truth]

/-- A tree that means what one of its sides means is rendered as that side. -/
theorem TreeRendered.stands {c side : Condition} {first last : RenderState} {r : RenderResult}
    (hpushed : Pushed st st' (c.argCount R.dialect R.schema)) (hres : ResultOf R side first r last)
    (hvalue : c.constValue = side.constValue)
    (hkept : c.constValue = none →
      c.keptArgs R.dialect R.schema = side.keptArgs R.dialect R.schema)
    (hwithin : (List.range' first.args.length (side.argCount R.dialect R.schema)).Sublist
      (List.range' st.args.length (c.argCount R.dialect R.schema)))
    (hbinds : ∀ env, Binds env st'.args → Binds env last.args)
    (htruth : ∀ E V, c.truth E R.dialect R.schema V = side.truth E R.dialect R.schema V)
    (hacc : c.constValue = none → ∀ E, c.accepted E = side.accepted E) :
    TreeRendered R c st r st' := by
  refine ⟨hpushed, ?_⟩
  cases r with
  | trivial => exact hvalue.trans hres
  | unsatisfiable => exact hvalue.trans hres
  | fragment p =>
      have hopen := hvalue.trans hres.open'
      refine ⟨hopen, hres.kept.trans (hkept hopen).symm, hres.within.trans hwithin, ?_⟩
      intro E env V hV hB
      rw [htruth, hacc hopen]
      exact hres.means E env V hV (hbinds env hB)

/-- The left side is a constant the operator can do without: the right side stands. -/
theorem TreeRendered.dropLeft {op : LogicalOperator} {r : RenderResult}
    (hpl : Pushed st st₁ (left.argCount R.dialect R.schema))
    (hconst : left.constValue = some op.neutral) (hr : TreeRendered R right st₁ r st') :
    TreeRendered R (.logical op left right) st r st' := by
  have hsome : left.constValue.isSome = true := by rw [hconst]; rfl
  refine .stands (hpl.append hr.pushed) hr.result ?_ (fun hopen => ?_) ?_ (fun _ hB => hB)
    (fun E V => ?_) fun hopen E => ?_
  · rcases hr : right.constValue with _ | _ | _ <;> cases op <;>
      simp [Condition.constValue, hconst, hr, LogicalOperator.neutral]
  · rw [Condition.keptArgs, hopen, Condition.keptArgs_of_constValue hsome, Nat.zero_add]; rfl
  · rw [hpl.length, Condition.argCount, ← List.range'_append_1]
    exact List.sublist_append_right _ _
  · cases op <;> rw [Condition.truth, Condition.truth_of_constValue hconst] <;> rfl
  · rw [Condition.accepted, hopen, Condition.accepted_of_constValue hsome]
    simp

theorem TreeRendered.dropRight {op : LogicalOperator} {r : RenderResult}
    (hl : TreeRendered R left st r st₁)
    (hpr : Pushed st₁ st' (right.argCount R.dialect R.schema))
    (hconst : right.constValue = some op.neutral) :
    TreeRendered R (.logical op left right) st r st' := by
  have hsome : right.constValue.isSome = true := by rw [hconst]; rfl
  refine .stands (hl.pushed.append hpr) hl.result ?_ (fun hopen => ?_) ?_ (fun _ hB => hpr.binds hB)
    (fun E V => ?_) fun hopen E => ?_
  · rcases hl : left.constValue with _ | _ | _ <;> cases op <;>
      simp [Condition.constValue, hconst, hl, LogicalOperator.neutral]
  · rw [Condition.keptArgs, hopen, Condition.keptArgs_of_constValue hsome, Nat.add_zero]; rfl
  · rw [Condition.argCount, ← List.range'_append_1]
    exact List.sublist_append_left _ _
  · cases op <;> rw [Condition.truth, Condition.truth_of_constValue hconst] <;>
      simp [LogicalOperator.neutral, Truth.ofBool]
  · rw [Condition.accepted, hopen, Condition.accepted_of_constValue hsome]
    simp

end Nodes

theorem combineAnd_tree {R : Renderer} {left right : Condition} {st st₁ st' : RenderState}
    {l r : RenderResult} (hl : TreeRendered R left st l st₁) (hr : TreeRendered R right st₁ r st') :
    TreeRendered R (.logical .and left right) st (combineAnd l r) st' := by
  have hpushed := hl.pushed.append hr.pushed
  cases l with
  | unsatisfiable =>
      have hc : left.constValue = some false := hl.result
      refine ⟨hpushed, ?_⟩
      cases r <;> simp [combineAnd, ResultOf, Condition.constValue, hc]
  | trivial =>
      cases r <;> exact .dropLeft hl.pushed hl.result hr
  | fragment p =>
      cases r with
      | unsatisfiable =>
          have hc : right.constValue = some false := hr.result
          refine ⟨hpushed, ?_⟩
          rcases hlc : left.constValue with _ | _ | _ <;>
            simp [combineAnd, ResultOf, Condition.constValue, hc, hlc]
      | trivial => exact .dropRight hl hr.pushed hr.result
      | fragment q => exact .both hl hr

theorem combineOr_tree {R : Renderer} {left right : Condition} {st st₁ st' : RenderState}
    {l r : RenderResult} (hl : TreeRendered R left st l st₁) (hr : TreeRendered R right st₁ r st') :
    TreeRendered R (.logical .or left right) st (combineOr l r) st' := by
  have hpushed := hl.pushed.append hr.pushed
  cases l with
  | trivial =>
      have hc : left.constValue = some true := hl.result
      refine ⟨hpushed, ?_⟩
      cases r <;> simp [combineOr, ResultOf, Condition.constValue, hc]
  | unsatisfiable =>
      cases r <;> exact .dropLeft hl.pushed hl.result hr
  | fragment p =>
      cases r with
      | trivial =>
          have hc : right.constValue = some true := hr.result
          refine ⟨hpushed, ?_⟩
          rcases hlc : left.constValue with _ | _ | _ <;>
            simp [combineOr, ResultOf, Condition.constValue, hc, hlc]
      | unsatisfiable => exact .dropRight hl hr.pushed hr.result
      | fragment q => exact .both hl hr

theorem negateResult_tree {R : Renderer} {expr : Condition} {st st' : RenderState}
    {r : RenderResult} (h : TreeRendered R expr st r st') :
    TreeRendered R (.not expr) st (negateResult r) st' := by
  obtain ⟨hpushed, hres⟩ := h
  refine ⟨hpushed, ?_⟩
  cases r with
  | trivial =>
      have hc : expr.constValue = some true := hres
      simp [negateResult, ResultOf, Condition.constValue, hc]
  | unsatisfiable =>
      have hc : expr.constValue = some false := hres
      simp [negateResult, ResultOf, Condition.constValue, hc]
  | fragment p =>
      have hf : FragmentOf R expr st p st' := hres
      refine ⟨by simp [Condition.constValue, hf.open'], ?_, ?_, ?_⟩
      · rw [Pred.holes_not]
        exact hf.kept
      · rw [Pred.holes_not]
        exact hf.within
      · intro E env V hV hB
        obtain ⟨heval, hacc⟩ := hf.means E env V hV hB
        exact ⟨by rw [Pred.eval, heval, Condition.truth], hacc⟩

/-- **Every rendered tree is what its result says it is.** -/
theorem renderCondition_tree {R : Renderer} {c : Condition} {st st' : RenderState}
    {r : RenderResult} (h : renderCondition R c st = .ok (r, st')) :
    TreeRendered R c st r st' := by
  induction c generalizing st r st' with
  | logical op left right ihl ihr =>
      simp only [renderCondition, bind_ok] at h
      obtain ⟨l, st₁, hl, r', st₂, hr, h⟩ := h
      cases op <;> simp only [pure_ok] at h <;> obtain ⟨rfl, rfl⟩ := h
      case and => exact combineAnd_tree (ihl hl) (ihr hr)
      case or => exact combineOr_tree (ihl hl) (ihr hr)
  | not expr ih =>
      simp only [renderCondition, bind_ok, pure_ok] at h
      obtain ⟨child, st₁, hc, rfl, rfl⟩ := h
      exact negateResult_tree (ih hc)
  | constant value =>
      simp only [renderCondition, pure_ok] at h
      obtain ⟨rfl, rfl⟩ := h
      refine ⟨⟨[], rfl, by simp⟩, ?_⟩
      cases value <;> rfl
  | fieldPredicate name =>
      exact (renderFieldPredicate_spec h).tree rfl rfl rfl fun _ => rfl
  | comparison left op right =>
      exact (renderComparison_spec h).tree rfl rfl rfl fun _ => rfl
  | inList left values =>
      exact (renderInCondition_spec h).tree rfl rfl rfl fun _ => rfl
  | elementIn element name =>
      exact (renderElementInCondition_spec h).tree rfl rfl rfl fun _ => rfl
  | textMatch name mode value =>
      exact (renderTextMatch_spec h).tree rfl rfl rfl fun _ => rfl
  | regex name pattern =>
      exact (renderRegex_spec h).tree rfl rfl rfl fun _ => rfl
  | listComprehension kind name iterVar pred =>
      exact (renderListComprehension_spec h).tree rfl rfl rfl fun _ => rfl

end Memos.Filter

/-
What each leaf of a condition tree renders to.

For every leaf the renderer answers with a fragment, and three things hold of it at
once (`LeafRendered`).  Its placeholders are the arguments it pushed, in order and
with none left over.  On a row that represents a view its value is the meaning of the
leaf there.  And the engine runs it exactly when the leaf is one it can run.  The tree
proofs use nothing else about the leaves.
-/
import Memos.Filter.Semantics


namespace Memos.Filter

open Sql

/-! ### Running a renderer step -/

section Monad

variable {α β : Type} {st st' : RenderState}

@[simp] theorem bind_ok {m : RenderM α} {f : α → RenderM β} {b : β} :
    (m >>= f) st = .ok (b, st') ↔ ∃ a st₁, m st = .ok (a, st₁) ∧ f a st₁ = .ok (b, st') := by
  show (StateT.bind m f) st = _ ↔ _
  unfold StateT.bind
  cases h : m st with
  | error e => simp [bind, Except.bind]
  | ok p =>
      obtain ⟨a, st₁⟩ := p
      constructor
      · intro hf; exact ⟨a, st₁, rfl, hf⟩
      · rintro ⟨a', st₂, heq, hf⟩
        cases heq
        exact hf

@[simp] theorem pure_ok {a b : α} : (pure a : RenderM α) st = .ok (b, st') ↔ b = a ∧ st' = st := by
  show Except.ok (a, st) = Except.ok (b, st') ↔ _
  simp [eq_comm]

@[simp] theorem throw_ok {e : String} {b : α} :
    (throw e : RenderM α) st = .ok (b, st') ↔ False := by
  constructor
  · intro h; cases h
  · intro h; exact h.elim

@[simp] theorem lift_ok {x : Except String α} {b : α} :
    (liftM x : RenderM α) st = .ok (b, st') ↔ x = .ok b ∧ st' = st := by
  show (StateT.lift x) st = _ ↔ _
  unfold StateT.lift
  cases x with
  | error e => simp [bind, Except.bind]
  | ok a => simp [bind, Except.bind, pure, Except.pure, eq_comm]

@[simp] theorem get_ok {s : RenderState} :
    (get : RenderM RenderState) st = .ok (s, st') ↔ s = st ∧ st' = st := pure_ok

@[simp] theorem addArg_ok {v : Value} {e : Expr} :
    addArg v st = .ok (e, st') ↔ e = .arg st.placeholderCounter ∧ st' = st.push v := by
  unfold addArg
  simp [eq_comm]

@[simp] theorem unknownField_ok {name : String} {b : α} :
    (unknownField name : RenderM α) st = .ok (b, st') ↔ False := throw_ok

theorem expectLiteral_ok {e : ValueExpr} {lit : Literal} :
    expectLiteral e st = .ok (lit, st') ↔ e = .literal lit ∧ st' = st := by
  cases e with
  | literal value =>
      simp only [expectLiteral, pure_ok, ValueExpr.literal.injEq]
      constructor <;> rintro ⟨rfl, rfl⟩ <;> exact ⟨rfl, rfl⟩
  | _ => simp [expectLiteral]

theorem expectBool_ok {e : ValueExpr} {b : Bool} :
    expectBool e st = .ok (b, st') ↔ e = .literal (.bool b) ∧ st' = st := by
  unfold expectBool
  simp only [bind_ok, expectLiteral_ok]
  constructor
  · rintro ⟨lit, st₁, ⟨rfl, rfl⟩, h⟩
    cases lit <;> simp_all
  · rintro ⟨rfl, rfl⟩
    exact ⟨_, _, ⟨rfl, rfl⟩, by simp⟩

theorem expectNumericLiteral_ok {e : ValueExpr} {n : Int} :
    expectNumericLiteral e st = .ok (n, st') ↔
      ∃ lit, e = .literal lit ∧ toInt64 lit = .ok n ∧ st' = st := by
  unfold expectNumericLiteral
  simp only [bind_ok, expectLiteral_ok, lift_ok]
  constructor
  · rintro ⟨lit, st₁, ⟨rfl, rfl⟩, h, rfl⟩
    exact ⟨lit, rfl, h, rfl⟩
  · rintro ⟨lit, rfl, h, rfl⟩
    exact ⟨lit, _, ⟨rfl, rfl⟩, h, rfl⟩

end Monad

/-! ### Arguments and placeholders -/

/-- Between `st` and `st'` exactly `n` arguments were pushed, and `holes` are their
placeholders from left to right. -/
structure Emits (st st' : RenderState) (holes : List Nat) (n : Nat) : Prop where
  pushed : ∃ vals : List Value, vals.length = n ∧ st'.args = st.args ++ vals
  inOrder : holes = List.range' st.args.length n

namespace Emits

theorem none (st : RenderState) : Emits st st [] 0 := ⟨⟨[], rfl, by simp⟩, rfl⟩

theorem push (st : RenderState) (v : Value) :
    Emits st (st.push v) [st.placeholderCounter] 1 := by
  refine ⟨⟨[v], rfl, rfl⟩, ?_⟩
  rw [st.counted]
  rfl

theorem append {st st₁ st' : RenderState} {h₁ h₂ : List Nat} {m n : Nat}
    (first : Emits st st₁ h₁ m) (second : Emits st₁ st' h₂ n) :
    Emits st st' (h₁ ++ h₂) (m + n) := by
  obtain ⟨⟨v₁, hv₁, hs₁⟩, ho₁⟩ := first
  obtain ⟨⟨v₂, hv₂, hs₂⟩, ho₂⟩ := second
  refine ⟨⟨v₁ ++ v₂, by rw [List.length_append, hv₁, hv₂], by rw [hs₂, hs₁, List.append_assoc]⟩, ?_⟩
  rw [ho₁, ho₂, hs₁, List.length_append, hv₁, List.range'_append_1]

end Emits

/-- The environment binds each placeholder to the argument it was emitted for. -/
def Binds (env : Env) (args : List Value) : Prop := ∀ k v, args[k]? = some v → env.arg k = v

theorem Binds.mono {env : Env} {st st' : RenderState} {holes : List Nat} {n : Nat}
    (h : Binds env st'.args) (emits : Emits st st' holes n) : Binds env st.args := by
  obtain ⟨⟨vals, -, hargs⟩, -⟩ := emits
  intro k v hk
  have hlt : k < st.args.length := (List.getElem?_eq_some_iff.mp hk).1
  exact h k v (by rw [hargs, List.getElem?_append_left hlt, hk])

theorem Binds.pushed {env : Env} {st : RenderState} {v : Value}
    (h : Binds env (st.push v).args) : env.arg st.placeholderCounter = v := by
  refine h _ v ?_
  show (st.args ++ [v])[st.placeholderCounter]? = some v
  rw [st.counted, List.getElem?_concat_length]

def LeafRendered (R : Renderer) (c : Condition) (st : RenderState) (r : RenderResult)
    (st' : RenderState) : Prop :=
  ∃ p, r = .fragment p ∧ Emits st st' p.holes (c.leafArgs R.dialect R.schema) ∧
    ∀ E env V, Represents R E env V → Binds env st'.args →
      p.eval E env = c.truth E R.dialect R.schema V ∧ p.accepted E env = c.leafAccepted E

/-! ### JSON expressions -/

@[simp] theorem buildPostgresJSONAccessor_holes (base : Expr) (terminalText : Bool)
    (path : List Name) : (buildPostgresJSONAccessor base terminalText path).holes = base.holes := by
  induction path generalizing base with
  | nil => rfl
  | cons key rest ih =>
      cases rest with
      | nil => cases terminalText <;> simp [buildPostgresJSONAccessor]
      | cons next rest => rw [buildPostgresJSONAccessor, ih, Expr.holes_arrow]; simp

@[simp] theorem jsonExtractExpr_holes (d : Dialect) (f : Field) :
    (jsonExtractExpr d f).holes = [] := by cases d <;> simp [jsonExtractExpr, qualifyColumn_holes]

@[simp] theorem jsonArrayOrEmpty_holes (d : Dialect) (f : Field) :
    (jsonArrayOrEmpty d f).holes = [] := by
  cases d <;> simp [jsonArrayOrEmpty, jsonArrayExpr, qualifyColumn_holes]

theorem jsonBoolPredicate_holes (R : Renderer) (f : Field) : (jsonBoolPredicate R f).holes = [] := by
  unfold jsonBoolPredicate
  cases R.dialect <;> simp

theorem jsonExistsSQL_holes (R : Renderer) (f : Field) : (jsonExistsSQL R f).holes = [] := by
  unfold jsonExistsSQL
  cases R.dialect <;> simp

theorem jsonBoolPredicate_accepted (R : Renderer) (f : Field) (E : Engine) (env : Env) :
    (jsonBoolPredicate R f).accepted E env = true := by
  unfold jsonBoolPredicate
  cases R.dialect <;> simp

theorem jsonExistsSQL_accepted (R : Renderer) (f : Field) (E : Engine) (env : Env) :
    (jsonExistsSQL R f).accepted E env = true := by
  unfold jsonExistsSQL
  cases R.dialect <;> simp

/-- The bare flag reads a missing key as false on every dialect. -/
theorem jsonBoolPredicate_eval {R : Renderer} {f : Field} {E : Engine} {env : Env}
    {flag : Option Bool}
    (h : (jsonExtractExpr R.dialect f).eval E env = encodeFlag R.dialect flag) :
    (jsonBoolPredicate R f).eval E env = .ofBool (flag.getD false) := by
  unfold jsonBoolPredicate
  cases hd : R.dialect <;> rw [hd] at h <;> rcases flag with _ | _ | _ <;>
    simp [h, encodeFlag, Engine.isTrueValue, Value.strict, Engine.applyConversion,
      Engine.applyFn₂, Engine.compareValues, Op.onBool, Op.onInt]

/-! ### Predicates and comparisons -/

theorem isTrueValue_encodeBool (E : Engine) (d : Dialect) (b : Bool) :
    E.isTrueValue (encodeBool d b) = b := by
  cases d <;> cases b <;> rfl

theorem addBoolArg_ok {R : Renderer} {b : Bool} {e : Expr} {st st' : RenderState} :
    addBoolArg R b st = .ok (e, st') ↔
      e = .arg st.placeholderCounter ∧ st' = st.push (encodeBool R.dialect b) := by
  unfold addBoolArg encodeBool
  cases R.dialect <;> exact addArg_ok

theorem compareValues_encodeBool (E : Engine) (d : Dialect) (op : Op) (a b : Bool) :
    E.compareValues op (encodeBool d a) (encodeBool d b) = .ofBool (op.onBool a b) := by
  cases d <;> rfl

theorem emits_cmp {a : Expr} (ha : a.holes = []) (op : Op) (st : RenderState) (v : Value) :
    Emits st (st.push v) (Pred.cmp a op (.arg st.placeholderCounter)).holes 1 := by
  simpa [ha] using Emits.push st v

theorem renderFieldPredicate_spec {R : Renderer} {name : String} {st st' : RenderState}
    {r : RenderResult} (h : renderFieldPredicate R name st = .ok (r, st')) :
    LeafRendered R (.fieldPredicate name) st r st' := by
  unfold renderFieldPredicate at h
  cases hf : R.schema.field? name with
  | none => simp [hf] at h
  | some f =>
      simp only [hf] at h
      cases hk : f.kind <;> simp only [hk, pure_ok, throw_ok] at h
      case boolColumn =>
        obtain ⟨rfl, rfl⟩ := h
        refine ⟨_, rfl, by simpa [qualifyColumn_holes, Condition.leafArgs] using Emits.none st', ?_⟩
        intro E env V hV _
        have hcol := hV.column name f hf
        rw [hV.bool name f hf hk] at hcol
        refine ⟨?_, by simp [Condition.leafAccepted]⟩
        simp [hcol, isTrueValue_encodeBool, Condition.truth, fieldPredicateTruth, hf, hk]
      case jsonBool =>
        obtain ⟨rfl, rfl⟩ := h
        refine ⟨_, rfl, by simpa [jsonBoolPredicate_holes, Condition.leafArgs] using Emits.none st', ?_⟩
        intro E env V hV _
        refine ⟨?_, by rw [jsonBoolPredicate_accepted]; rfl⟩
        rw [jsonBoolPredicate_eval (hV.flag name f hf hk)]
        simp [Condition.truth, fieldPredicateTruth, hf, hk]
      case jsonExists =>
        obtain ⟨rfl, rfl⟩ := h
        refine ⟨_, rfl, by simpa [jsonExistsSQL_holes, Condition.leafArgs] using Emits.none st', ?_⟩
        intro E env V hV _
        refine ⟨?_, by rw [jsonExistsSQL_accepted]; rfl⟩
        rw [hV.present name f hf hk]
        simp [Condition.truth, fieldPredicateTruth, hf, hk]

theorem renderScalarComparison_spec {R : Renderer} {name : String} {f : Field} {op : Op}
    {right : ValueExpr} {st st' : RenderState} {r : RenderResult}
    (hf : R.schema.field? name = some f) (hk : f.kind = .scalar) (hname : f.name = name)
    (h : renderScalarComparison R f op right st = .ok (r, st')) :
    LeafRendered R (.comparison (.fieldRef name) op right) st r st' := by
  unfold renderScalarComparison at h
  simp only [bind_ok, expectLiteral_ok] at h
  obtain ⟨lit, st₁, ⟨rfl, rfl⟩, h⟩ := h
  by_cases hlit : lit = .null
  · subst hlit
    cases op <;> simp only [pure_ok, throw_ok] at h
    case eq | ne =>
      obtain ⟨rfl, rfl⟩ := h
      refine ⟨_, rfl, ?_, ?_⟩
      · simpa [Field.columnExpr_holes, Condition.leafArgs, comparisonArgs, hf, hk]
          using Emits.none st'
      · intro E env V hV _
        simp [hV.value name f hf, Condition.truth, comparisonTruth, scalarTruth, hf, hk, hname,
          Condition.leafAccepted]
  · have hrest : ∃ v, scalarArg f lit = .ok v ∧
        r = .fragment (.cmp (f.columnExpr R.dialect) op (.arg st₁.placeholderCounter)) ∧
        st' = st₁.push v := by
      cases lit with
      | null => exact absurd rfl hlit
      | _ =>
          simp only [bind_ok, lift_ok, addArg_ok, pure_ok] at h
          obtain ⟨v, _, ⟨hv, rfl⟩, _, _, ⟨rfl, rfl⟩, rfl, rfl⟩ := h
          exact ⟨v, hv, rfl, rfl⟩
    obtain ⟨v, hv, rfl, rfl⟩ := hrest
    refine ⟨_, rfl, ?_, ?_⟩
    · have hargs : Condition.leafArgs R.dialect R.schema
          (.comparison (.fieldRef name) op (.literal lit)) = 1 := by
        simp [Condition.leafArgs, comparisonArgs, hf, hk, hlit]
      rw [hargs]
      exact emits_cmp (f.columnExpr_holes R.dialect) op st₁ v
    · intro E env V hV hB
      have htruth : Condition.truth E R.dialect R.schema V
          (.comparison (.fieldRef name) op (.literal lit)) = E.compareValues op (V.value name) v := by
        cases lit <;> simp_all [Condition.truth, comparisonTruth, scalarTruth]
      rw [htruth]
      exact ⟨by simp [hV.value name f hf, hB.pushed], by simp [Condition.leafAccepted]⟩

theorem renderBoolColumnComparison_spec {R : Renderer} {name : String} {f : Field} {op : Op}
    {right : ValueExpr} {st st' : RenderState} {r : RenderResult}
    (hf : R.schema.field? name = some f) (hk : f.kind = .boolColumn)
    (h : renderBoolColumnComparison R f op right st = .ok (r, st')) :
    LeafRendered R (.comparison (.fieldRef name) op right) st r st' := by
  unfold renderBoolColumnComparison at h
  simp only [bind_ok, expectBool_ok, addBoolArg_ok, pure_ok] at h
  obtain ⟨b, _, ⟨rfl, rfl⟩, _, _, ⟨rfl, rfl⟩, rfl, rfl⟩ := h
  refine ⟨_, rfl, ?_, ?_⟩
  · simpa [Condition.leafArgs, comparisonArgs, hf, hk]
      using emits_cmp (qualifyColumn_holes R.dialect f.column) op _ _
  · intro E env V hV hB
    refine ⟨?_, by simp [Condition.leafAccepted]⟩
    simp [hV.column name f hf, hV.bool name f hf hk, hB.pushed, compareValues_encodeBool,
      Condition.truth, comparisonTruth, hf, hk]

theorem renderJSONExistsComparison_spec {R : Renderer} {name : String} {f : Field} {op : Op}
    {right : ValueExpr} {st st' : RenderState} {r : RenderResult}
    (hf : R.schema.field? name = some f) (hk : f.kind = .jsonExists)
    (h : renderJSONExistsComparison R f op right st = .ok (r, st')) :
    LeafRendered R (.comparison (.fieldRef name) op right) st r st' := by
  unfold renderJSONExistsComparison at h
  simp only [bind_ok] at h
  obtain ⟨b, st₁, hb, h⟩ := h
  have hb : right = .literal (.bool b) ∧ st₁ = st := by
    unfold wrapError at hb
    cases hx : expectBool right st with
    | error e => simp [StateT.run, hx, Except.mapError] at hb
    | ok p =>
        simp only [StateT.run, hx, Except.mapError, Except.ok.injEq] at hb
        subst hb
        exact expectBool_ok.mp hx
  obtain ⟨rfl, rfl⟩ := hb
  cases op <;> simp only [pure_ok, throw_ok] at h
  case eq | ne =>
    obtain ⟨rfl, rfl⟩ := h
    refine ⟨_, rfl, ?_, ?_⟩
    · cases b <;> simpa [jsonExistsSQL_holes, Condition.leafArgs, comparisonArgs, hf, hk]
        using Emits.none st'
    · intro E env V hV _
      have hp := hV.present name f hf hk
      cases b <;> simp [hp, jsonExistsSQL_accepted, Condition.truth, comparisonTruth, hf, hk,
        Condition.leafAccepted, Op.onBool, Op.onInt]

/-- What a comparison of a flag says where a missing key reads as false. -/
theorem flagTruth_of_reads {d : Dialect} {name : String} (h : missingReadsFalse d name = true)
    (op : Op) (flag : Option Bool) (b : Bool) :
    flagTruth d name op flag b = .ofBool (op.onBool (flag.getD false) b) := by
  cases flag with
  | none => simp only [flagTruth, h, if_true, Option.getD_none]
  | some f => rfl

/-- And where it does not. -/
theorem flagTruth_of_not_reads {d : Dialect} {name : String}
    (h : missingReadsFalse d name = false) (op : Op) (flag : Option Bool) (b : Bool) :
    flagTruth d name op flag b =
      flag.elim .unknown fun f => .ofBool (op.onBool f b) := by
  cases flag with
  | none => simp [flagTruth, h]
  | some f => rfl

section Flags

variable {E : Engine} {env : Env} {e : Expr} {flag : Option Bool}

theorem sqliteFlag_cmp (h : e.eval E env = encodeFlag .sqlite flag) (op : Op) (b : Bool) :
    (Pred.cmp e op (.int (if b then 1 else 0))).eval E env =
      flag.elim .unknown fun f => .ofBool (op.onBool f b) := by
  rcases flag with _ | _ | _ <;> cases b <;>
    simp [h, encodeFlag, Engine.compareValues, Op.onBool]

theorem sqliteFlag_isTrue (h : e.eval E env = encodeFlag .sqlite flag) :
    (Pred.isTrue e).eval E env = .ofBool (flag.getD false) := by
  rcases flag with _ | _ | _ <;> simp [h, encodeFlag, Engine.isTrueValue]

theorem mysqlFlag_cmp (h : e.eval E env = encodeFlag .mysql flag) (op : Op) (b : Bool) :
    (Pred.cmp e op (.jsonBool b)).eval E env =
      flag.elim .unknown fun f => .ofBool (op.onBool f b) := by
  rcases flag with _ | _ | _ <;> simp [h, encodeFlag, Engine.compareValues]

theorem mysqlFlag_coalesce (h : e.eval E env = encodeFlag .mysql flag) (op : Op) (b : Bool) :
    (Pred.cmp (.call₂ .coalesce e (.jsonBool false)) op (.jsonBool b)).eval E env =
      .ofBool (op.onBool (flag.getD false) b) := by
  rcases flag with _ | _ | _ <;> simp [h, encodeFlag, Engine.applyFn₂, Engine.compareValues]

theorem postgresFlag_cmp (h : e.eval E env = encodeFlag .postgres flag) (op : Op) {b : Bool}
    {k : Nat} (hk : env.arg k = .bool b) :
    (Pred.cmp (.convert e .boolean) op (.arg k)).eval E env =
      flag.elim .unknown fun f => .ofBool (op.onBool f b) := by
  rcases flag with _ | _ | _ <;>
    simp [h, hk, encodeFlag, Value.strict, Engine.applyConversion, Engine.compareValues]

theorem postgresFlag_coalesce (h : e.eval E env = encodeFlag .postgres flag) (op : Op) {b : Bool}
    {k : Nat} (hk : env.arg k = .bool b) :
    (Pred.cmp (.call₂ .coalesce (.convert e .boolean) (.bool false)) op (.arg k)).eval E env =
      .ofBool (op.onBool (flag.getD false) b) := by
  rcases flag with _ | _ | _ <;>
    simp [h, hk, encodeFlag, Value.strict, Engine.applyConversion, Engine.applyFn₂,
      Engine.compareValues]

/-- The SQLite rendering of a flag comparison, by field and operator. -/
theorem sqliteJSONBool_ok {f : Field} {op : Op} {b : Bool} {p : Pred}
    (h : sqliteJSONBool f op b = .ok p) :
    p.holes = [] ∧ (∀ E env, p.accepted E env = true) ∧
      ∀ E env flag, (jsonExtractExpr .sqlite f).eval E env = encodeFlag .sqlite flag →
        p.eval E env = flagTruth .sqlite f.name op flag b := by
  unfold sqliteJSONBool at h
  by_cases hn : f.name = "has_task_list"
  · have hreads : missingReadsFalse .sqlite f.name = false := by simp [missingReadsFalse, hn]
    cases op <;> simp only [hn, if_true, reduceCtorEq, Except.ok.injEq] at h <;> subst h <;>
      refine ⟨by simp, by simp, fun E env flag hx => ?_⟩ <;>
      rw [flagTruth_of_not_reads hreads] <;> exact sqliteFlag_cmp hx _ b
  · have hreads : missingReadsFalse .sqlite f.name = true := by simp [missingReadsFalse, hn]
    cases op <;> cases b <;>
      simp only [hn, if_true, if_false, Bool.false_eq_true, reduceCtorEq, Except.ok.injEq] at h <;>
      subst h <;> refine ⟨by simp, by simp, fun E env flag hx => ?_⟩ <;>
      rw [flagTruth_of_reads hreads] <;> have ht := sqliteFlag_isTrue hx <;>
      cases hg : flag.getD false <;> simp_all [Op.onBool, Op.onInt]

end Flags

theorem renderJSONBoolComparison_spec {R : Renderer} {name : String} {f : Field} {op : Op}
    {right : ValueExpr} {st st' : RenderState} {r : RenderResult}
    (hf : R.schema.field? name = some f) (hk : f.kind = .jsonBool) (hname : f.name = name)
    (h : renderJSONBoolComparison R f op right st = .ok (r, st')) :
    LeafRendered R (.comparison (.fieldRef name) op right) st r st' := by
  unfold renderJSONBoolComparison at h
  simp only [bind_ok, expectBool_ok] at h
  obtain ⟨b, _, ⟨rfl, rfl⟩, h⟩ := h
  subst hname
  have htruth : ∀ E V, Condition.truth E R.dialect R.schema V
      (.comparison (.fieldRef f.name) op (.literal (.bool b))) =
      flagTruth R.dialect f.name op (V.flag f.name) b := by
    intro E V
    simp [Condition.truth, comparisonTruth, hf, hk]
  have hargs : Condition.leafArgs R.dialect R.schema
      (.comparison (.fieldRef f.name) op (.literal (.bool b))) =
      if R.dialect = .postgres then 1 else 0 := by
    simp [Condition.leafArgs, comparisonArgs, hf, hk]
  have hflag : ∀ E env V, Represents R E env V →
      (jsonExtractExpr R.dialect f).eval E env = encodeFlag R.dialect (V.flag f.name) :=
    fun E env V hV => hV.flag f.name f hf hk
  unfold LeafRendered
  cases hd : R.dialect <;> rw [hd] at h htruth hargs hflag <;> rw [hargs]
  case sqlite =>
    simp only [bind_ok, lift_ok, pure_ok] at h
    obtain ⟨p, _, ⟨hp, rfl⟩, rfl, rfl⟩ := h
    obtain ⟨hholes, hacc, heval⟩ := sqliteJSONBool_ok hp
    refine ⟨p, rfl, hholes ▸ Emits.none st', fun E env V hV _ => ?_⟩
    rw [htruth]
    exact ⟨heval E env _ (hflag E env V hV), hacc E env⟩
  case mysql =>
    simp only [pure_ok] at h
    obtain ⟨rfl, rfl⟩ := h
    by_cases hn : f.name = "hidden"
    · have hreads : missingReadsFalse .mysql f.name = true := by simp [missingReadsFalse, hn]
      refine ⟨_, rfl, by simpa [hn] using Emits.none st', fun E env V hV _ => ?_⟩
      rw [htruth, flagTruth_of_reads hreads, if_pos hn]
      exact ⟨mysqlFlag_coalesce (hflag E env V hV) op b, by simp [Condition.leafAccepted]⟩
    · have hreads : missingReadsFalse .mysql f.name = false := by simp [missingReadsFalse, hn]
      refine ⟨_, rfl, by simpa [hn] using Emits.none st', fun E env V hV _ => ?_⟩
      rw [htruth, flagTruth_of_not_reads hreads, if_neg hn]
      exact ⟨mysqlFlag_cmp (hflag E env V hV) op b, by simp [Condition.leafAccepted]⟩
  case postgres =>
    simp only [bind_ok, addArg_ok] at h
    obtain ⟨_, _, ⟨rfl, rfl⟩, h⟩ := h
    by_cases hn : f.name = "hidden"
    · have hreads : missingReadsFalse .postgres f.name = true := by simp [missingReadsFalse, hn]
      rw [if_pos hn, pure_ok] at h
      obtain ⟨rfl, rfl⟩ := h
      refine ⟨_, rfl, emits_cmp (by simp) op _ _, fun E env V hV hB => ?_⟩
      rw [htruth, flagTruth_of_reads hreads]
      exact ⟨postgresFlag_coalesce (hflag E env V hV) op hB.pushed,
        by simp [Condition.leafAccepted]⟩
    · have hreads : missingReadsFalse .postgres f.name = false := by simp [missingReadsFalse, hn]
      rw [if_neg hn, pure_ok] at h
      obtain ⟨rfl, rfl⟩ := h
      refine ⟨_, rfl, emits_cmp (by simp) op _ _, fun E env V hV hB => ?_⟩
      rw [htruth, flagTruth_of_not_reads hreads]
      exact ⟨postgresFlag_cmp (hflag E env V hV) op hB.pushed,
        by simp [Condition.leafAccepted]⟩

/-! ### Sizes and dates -/

theorem Schema.field?_name {S : Schema} {name : String} {f : Field}
    (h : S.field? name = some f) : f.name = name := by
  simpa using List.find?_some h

theorem Schema.resolveAlias_field? {S : Schema} {name : String} {f : Field}
    (h : S.resolveAlias name = some f) : S.field? f.name = some f := by
  unfold Schema.resolveAlias at h
  cases hn : S.field? name with
  | none => simp [hn] at h
  | some g =>
      simp only [hn] at h
      split at h
      · rw [Schema.field?_name h]; exact h
      · cases h
        rw [Schema.field?_name hn]; exact hn

theorem sizeField_ok {R : Renderer} {name : String} {f : Field} {st st' : RenderState}
    (h : sizeField R name st = .ok (f, st')) :
    st' = st ∧ R.schema.resolveAlias name = some f := by
  unfold sizeField at h
  unfold Schema.resolveAlias at h ⊢
  cases hn : R.schema.field? name with
  | none => simp [hn] at h
  | some g =>
      simp only [hn] at h ⊢
      split at h
      · rename_i halias
        rw [if_pos halias]
        cases ht : R.schema.field? g.aliasFor with
        | none => simp [ht] at h
        | some target =>
            simp only [ht, pure_ok] at h
            exact ⟨h.2, by rw [h.1]⟩
      · rename_i halias
        rw [if_neg halias]
        simp only [pure_ok] at h
        exact ⟨h.2, by rw [h.1]⟩

theorem jsonArrayLengthExpr_holes (d : Dialect) (f : Field) :
    (jsonArrayLengthExpr d f).holes = [] := by cases d <;> simp [jsonArrayLengthExpr]

theorem stringLengthExpr_holes (d : Dialect) (e : Expr) :
    (stringLengthExpr d e).holes = e.holes := by cases d <;> simp [stringLengthExpr]

theorem jsonArrayLengthExpr_eval {d : Dialect} {f : Field} {E : Engine} {env : Env}
    {items : List Json} (h : (jsonArrayOrEmpty d f).eval E env = .json (.arr items)) :
    (jsonArrayLengthExpr d f).eval E env = .int items.length := by
  cases d <;> simp [jsonArrayLengthExpr, h, Value.strict, Engine.applyFn]

theorem stringLengthExpr_eval {d : Dialect} {e : Expr} {E : Engine} {env : Env} {v : Value}
    (h : e.eval E env = v) :
    (stringLengthExpr d e).eval E env = v.strict fun v => .int (E.textOf v).length := by
  cases d <;> simp only [stringLengthExpr, Expr.eval, h] <;> cases v <;> rfl

theorem sizeExpr_spec {R : Renderer} {f : Field} {e : Expr} {st st' : RenderState}
    (hf : R.schema.field? f.name = some f) (h : sizeExpr R f st = .ok (e, st')) :
    st' = st ∧ e.holes = [] ∧ ∀ E env V op n, Represents R E env V →
      E.compareValues op (e.eval E env) (.int n) = sizeTruth E V f op n := by
  unfold sizeExpr at h
  unfold sizeTruth
  by_cases hl : f.kind = .jsonList
  · rw [if_pos hl] at h
    simp only [pure_ok] at h
    obtain ⟨rfl, rfl⟩ := h
    refine ⟨rfl, jsonArrayLengthExpr_holes _ _, fun E env V op n hV => ?_⟩
    rw [jsonArrayLengthExpr_eval (hV.list f.name f hf hl), if_pos hl, List.length_map]
    rfl
  · rw [if_neg hl] at h
    split at h
    · simp only [pure_ok] at h
      obtain ⟨rfl, rfl⟩ := h
      refine ⟨rfl, ?_, fun E env V op n hV => ?_⟩
      · rw [stringLengthExpr_holes, Field.columnExpr_holes]
      · rw [stringLengthExpr_eval (hV.value f.name f hf), if_neg hl]
        cases V.value f.name <;> rfl
    · simp only [throw_ok] at h

theorem renderFunctionComparison_spec {R : Renderer} {fn : String} {args : List ValueExpr}
    {op : Op} {right : ValueExpr} {st st' : RenderState} {r : RenderResult}
    (h : renderFunctionComparison R fn args op right st = .ok (r, st')) :
    LeafRendered R (.comparison (.function fn args) op right) st r st' := by
  unfold renderFunctionComparison at h
  by_cases hfn : fn ≠ "size"
  · simp [hfn] at h
  · simp only [hfn, if_false] at h
    match args, h with
    | [.fieldRef name], h =>
        simp only [bind_ok, expectNumericLiteral_ok, addArg_ok, pure_ok] at h
        obtain ⟨f, _, hsf, n, _, ⟨lit, rfl, hn, rfl⟩, e, _, he, _, _, ⟨rfl, rfl⟩, rfl, rfl⟩ := h
        obtain ⟨rfl, hres⟩ := sizeField_ok hsf
        obtain ⟨rfl, hholes, heval⟩ := sizeExpr_spec (Schema.resolveAlias_field? hres) he
        refine ⟨_, rfl, emits_cmp hholes op _ _, fun E env V hV hB => ⟨?_, ?_⟩⟩
        · rw [Pred.eval, Expr.eval, hB.pushed, heval E env V op n hV]
          simp [Condition.truth, comparisonTruth, hres, hn]
        · simp [Condition.leafAccepted]
    | [.literal _], h => simp at h
    | [.function _ _], h => simp at h
    | [.fieldAccessor _ _], h => simp at h
    | [], h => simp at h
    | _ :: _ :: _, h => simp at h

theorem accessorBase_holes (d : Dialect) (spec : AccessorSpec) (col : Column) :
    (accessorBase d spec (qualifyColumn d col)).holes = [] := by
  cases d <;> simp [accessorBase, qualifyColumn_holes]

theorem accessorBase_eval {d : Dialect} (spec : AccessorSpec) {e : Expr} {E : Engine} {env : Env}
    {v : Value} (h : e.eval E env = v) :
    (accessorBase d spec e).eval E env =
      .ofInt? (E.partOf (spec.token d).1 (spec.token d).2.text v) := by
  cases d <;> simp only [accessorBase, Expr.eval, h, AccessorSpec.token] <;>
    cases E.partOf _ _ v <;> rfl

theorem renderAccessorComparison_spec {R : Renderer} {name accessor : String} {op : Op}
    {right : ValueExpr} {st st' : RenderState} {r : RenderResult}
    (h : renderAccessorComparison R name accessor op right st = .ok (r, st')) :
    LeafRendered R (.comparison (.fieldAccessor name accessor) op right) st r st' := by
  unfold renderAccessorComparison at h
  cases hf : R.schema.field? name with
  | none => simp [hf] at h
  | some f =>
      simp only [hf, bind_ok, expectNumericLiteral_ok, addArg_ok, pure_ok] at h
      obtain ⟨n, _, ⟨lit, rfl, hn, rfl⟩, e, _, he, _, _, ⟨rfl, rfl⟩, rfl, rfl⟩ := h
      unfold timestampAccessorExpr at he
      cases hs : accessorSpecs accessor with
      | none => simp [hs] at he
      | some spec =>
          simp only [hs, pure_ok] at he
          obtain ⟨rfl, rfl⟩ := he
          refine ⟨_, rfl, emits_cmp ?_ op _ _, fun E env V hV hB => ⟨?_, ?_⟩⟩
          · split <;> simp [accessorBase_holes]
          · have hbase := accessorBase_eval (d := R.dialect) spec (hV.column name f hf)
            have harg : (Expr.arg _).eval E env = .int n := hB.pushed
            simp only [Pred.eval, harg, Condition.truth, comparisonTruth, hn, accessorTruth, hs]
            by_cases hoff : spec.off R.dialect ≠ 0
            · rw [if_pos hoff, Expr.eval, hbase]
              cases E.partOf _ _ (V.column name) <;> rfl
            · rw [if_neg hoff, hbase, not_not.mp hoff]
              cases E.partOf _ _ (V.column name) with
              | none => rfl
              | some part => simp [Value.ofInt?, Engine.compareValues]
          · simp [Condition.leafAccepted]

theorem renderComparison_spec {R : Renderer} {left : ValueExpr} {op : Op} {right : ValueExpr}
    {st st' : RenderState} {r : RenderResult}
    (h : renderComparison R left op right st = .ok (r, st')) :
    LeafRendered R (.comparison left op right) st r st' := by
  cases left with
  | literal _ => simp [renderComparison] at h
  | function fn args => exact renderFunctionComparison_spec h
  | fieldAccessor field accessor => exact renderAccessorComparison_spec h
  | fieldRef name =>
      unfold renderComparison at h
      cases hf : R.schema.field? name with
      | none => simp [hf] at h
      | some f =>
          have hname := Schema.field?_name hf
          simp only [hf] at h
          cases hk : f.kind <;> simp only [hk, throw_ok] at h
          case scalar => exact renderScalarComparison_spec hf hk hname h
          case boolColumn => exact renderBoolColumnComparison_spec hf hk h
          case jsonBool => exact renderJSONBoolComparison_spec hf hk hname h
          case jsonExists => exact renderJSONExistsComparison_spec hf hk h

end Memos.Filter

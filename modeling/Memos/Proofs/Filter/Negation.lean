/-
What a rendered filter selects, and what its negation does.

`selects_eq` puts the tree induction to use: the statement of a condition selects a row
exactly when the engine runs it and the condition's meaning there is true.  Everything
about negation is then said about meanings.

Negation complements a filter exactly on the rows where the meaning is decided.  A
leaf that compares a missing value is unknown, its negation is unknown too, and the
row is in neither listing: the attachment with no memo is in neither `memo_id == 5`
nor `!(memo_id == 5)`.  Double negation and De Morgan's laws are not affected, since
they hold of three-valued meanings as they stand.
-/
import Memos.Proofs.Filter.Placeholders
import Memos.Proofs.Filter.Rows

namespace Memos.Filter

open Sql Kleene

section Selection

variable {d : Dialect} {P : Primitives} {row : Row} {offset : Nat}

def Row.truth (row : Row) (d : Dialect) (P : Primitives) (c : Condition) : Truth :=
  c.truth (d.engine P) d row.schema (row.view d P)

theorem Statement.env_binds (s : Statement) (d : Dialect) (row : Row) :
    Binds (s.env d row) s.args := by
  intro k v hk
  simp [Statement.env, List.getD_eq_getElem?_getD, hk]

/-- **A statement selects the rows on which its condition is true**, provided the engine
runs it. -/
theorem selects_eq {c : Condition} {s : Statement}
    (h : Renderer.render ⟨row.schema, d, offset⟩ c = .ok s) :
    s.selects d P row = (c.accepted (d.engine P) && (row.truth d P c).isTrue) := by
  obtain ⟨r, st, ⟨-, hres⟩, hargs, hsql⟩ := render_ok h
  unfold Statement.selects Row.truth
  cases r with
  | trivial =>
      have hc : c.constValue = some true := hres
      rw [hsql, Condition.accepted_of_constValue (by rw [hc]; rfl),
        Condition.truth_of_constValue hc]
      rfl
  | unsatisfiable =>
      have hc : c.constValue = some false := hres
      rw [hsql, Condition.truth_of_constValue hc]
      simp [Pred.selects, Truth.ofBool, Truth.isTrue]
  | fragment p =>
      have hf : FragmentOf ⟨row.schema, d, offset⟩ c {} p st := hres
      obtain ⟨heval, hacc⟩ := hf.means (d.engine P) (s.env d row) _
        (row_represents row d P offset rfl) (hargs ▸ s.env_binds d row)
      rw [hsql]
      show Pred.selects (d.engine P) (s.env d row) p = _
      rw [Pred.selects, heval, hacc]

/-! ### De Morgan -/

/-- The operator De Morgan's laws exchange for `op`. -/
def LogicalOperator.dual : LogicalOperator → LogicalOperator
  | .and => .or
  | .or => .and

theorem constValue_deMorgan (op : LogicalOperator) (a b : Condition) :
    (Condition.logical op.dual (.not a) (.not b)).constValue =
      (Condition.not (.logical op a b)).constValue := by
  rcases ha : a.constValue with _ | _ | _ <;> rcases hb : b.constValue with _ | _ | _ <;>
    cases op <;> simp [Condition.constValue, LogicalOperator.dual, ha, hb]

theorem truth_deMorgan (op : LogicalOperator) (a b : Condition) :
    row.truth d P (.logical op.dual (.not a) (.not b)) =
      row.truth d P (.not (.logical op a b)) := by
  unfold Row.truth
  cases op with
  | and => exact (Truth.not_and _ _).symm
  | or => exact (Truth.not_or _ _).symm

theorem accepted_deMorgan (E : Engine) (op : LogicalOperator) (a b : Condition) :
    (Condition.logical op.dual (.not a) (.not b)).accepted E =
      (Condition.not (.logical op a b)).accepted E := by
  show (_ || _) = (_ || _)
  rw [constValue_deMorgan]
  simp [Condition.constValue, Condition.accepted]

/-! ### The main theorem -/

theorem complement_iff {c : Condition} {s n : Statement}
    (hs : Renderer.render ⟨row.schema, d, offset⟩ c = .ok s)
    (hn : Renderer.render ⟨row.schema, d, offset⟩ (.not c) = .ok n) :
    (n.selects d P row = true ↔ ¬ s.selects d P row = true) ↔
      (c.accepted (d.engine P) = true ∧ (row.truth d P c).decided = true) := by
  have htruth : row.truth d P (.not c) = (row.truth d P c).not := rfl
  have hacc : (Condition.not c).accepted (d.engine P) = c.accepted (d.engine P) := rfl
  rw [selects_eq hs, selects_eq hn, htruth, hacc]
  cases c.accepted (d.engine P) with
  | false => simp
  | true => simpa using Truth.isTrue_not (row.truth d P c)

end Selection

/-- **A negated filter selects exactly the rows the filter does not select if and only if
the engine runs it and no missing value leaves it undecided there.**  Double negation
and De Morgan's laws hold on every row. -/
theorem negation_complements_iff (d : Dialect) (P : Primitives) (row : Row) (offset : Nat) :
    (∀ c s n, Renderer.render ⟨row.schema, d, offset⟩ c = .ok s →
      Renderer.render ⟨row.schema, d, offset⟩ (.not c) = .ok n →
      ((n.selects d P row = true ↔ ¬ s.selects d P row = true) ↔
        (c.accepted (d.engine P) = true ∧ (row.truth d P c).decided = true))) ∧
    (∀ c s n, Renderer.render ⟨row.schema, d, offset⟩ c = .ok s →
      Renderer.render ⟨row.schema, d, offset⟩ (.not (.not c)) = .ok n →
      n.selects d P row = s.selects d P row) ∧
    (∀ op a b s n, Renderer.render ⟨row.schema, d, offset⟩ (.not (.logical op a b)) = .ok s →
      Renderer.render ⟨row.schema, d, offset⟩ (.logical op.dual (.not a) (.not b)) = .ok n →
      n.selects d P row = s.selects d P row) := by
  refine ⟨fun c s n hs hn => complement_iff hs hn, fun c s n hs hn => ?_,
    fun op a b s n hs hn => ?_⟩
  · have htruth : row.truth d P (.not (.not c)) = row.truth d P c := Truth.not_not _
    have hacc : (Condition.not (.not c)).accepted (d.engine P) = c.accepted (d.engine P) := rfl
    rw [selects_eq hs, selects_eq hn, htruth, hacc]
  · rw [selects_eq hs, selects_eq hn, truth_deMorgan, accepted_deMorgan]

/-- An engine whose texts compare by code point. -/
def plainPrimitives : Primitives where
  toText _ := ""
  toInt _ := 0
  toBool _ := false
  truthy _ := false
  compare op a b :=
    match op, a, b with
    | .eq, .text s, .text t => decide (s = t)
    | .ne, .text s, .text t => decide (s ≠ t)
    | _, _, _ => false
  matchPattern _ _ _ := false
  fold s := s
  instr _ _ := 0
  substr s _ := s
  jsonLength _ := 0
  unquote _ := ""
  datePart _ _ _ := none
  compiles _ := true
  typeNames_differ := by decide
  typeNames_agree := by decide

def memoIdIsFive : Condition := .comparison (.fieldRef "memo_id") .eq (.literal (.int 5))

def looseAttachment : Row := .attachment { filename := "a.png", type := "", createdTs := 0, memo := none }

def attachmentOfFive : Row :=
  .attachment { filename := "a.png", type := "", createdTs := 0, memo := some ⟨5, none⟩ }

theorem negation_complements_iff_linked :
    ∃ s n, Renderer.render ⟨attachmentSchema, .sqlite, 0⟩ memoIdIsFive = .ok s ∧
      Renderer.render ⟨attachmentSchema, .sqlite, 0⟩ (.not memoIdIsFive) = .ok n ∧
      (n.selects .sqlite plainPrimitives attachmentOfFive = true ↔
        ¬ s.selects .sqlite plainPrimitives attachmentOfFive = true) :=
  ⟨_, _, rfl, rfl,
    ((negation_complements_iff .sqlite plainPrimitives attachmentOfFive 0).1
      memoIdIsFive _ _ rfl rfl).mpr ⟨rfl, rfl⟩⟩

theorem loose_attachment_in_neither :
    ∃ s n, Renderer.render ⟨attachmentSchema, .sqlite, 0⟩ memoIdIsFive = .ok s ∧
      Renderer.render ⟨attachmentSchema, .sqlite, 0⟩ (.not memoIdIsFive) = .ok n ∧
      s.selects .sqlite plainPrimitives looseAttachment = false ∧
      n.selects .sqlite plainPrimitives looseAttachment = false :=
  ⟨_, _, rfl, rfl, rfl, rfl⟩

end Memos.Filter

/-
Comparisons of the payload flags.

A flag that is false may be missing from the payload, since `protojson` leaves out what
is false.  Read with false as its default, a flag compared with `true` (or tested with
`!= true`'s opposite) is rendered rightly everywhere.  A missing flag compared so that
false should satisfy the comparison is where the dialects part: SQLite tests every
flag for truth except `has_task_list`, MySQL and Postgres supply the default for
`hidden` alone, and elsewhere the comparison is unknown and drops the memo.

The bare flag and its negation are right on all three dialects.
-/

namespace Memos.Filter

open Sql Kleene

theorem memo_selects_eq {d : Dialect} {P : Primitives} {m : MemoRow} {offset : Nat}
    {c : Condition} {s : Statement} (h : Renderer.render ⟨memoSchema, d, offset⟩ c = .ok s) :
    s.selects d P (.memo m) =
      (c.accepted (d.engine P) && (Row.truth (.memo m) d P c).isTrue) :=
  selects_eq h

theorem flag_comparison_selects {d : Dialect} {P : Primitives} {m : MemoRow} {offset : Nat}
    {name : String} {f : Field} {op : Op} {b : Bool} {s : Statement}
    (hf : memoSchema.field? name = some f) (hk : f.kind = .jsonBool)
    (h : Renderer.render ⟨memoSchema, d, offset⟩
      (.comparison (.fieldRef name) op (.literal (.bool b))) = .ok s) :
    s.selects d P (.memo m) = (flagTruth d name op (m.flag name) b).isTrue := by
  rw [memo_selects_eq h]
  have htruth : Row.truth (.memo m) d P (.comparison (.fieldRef name) op (.literal (.bool b))) =
      flagTruth d name op (m.flag name) b := by
    simp only [Row.truth, Row.schema, Condition.truth, comparisonTruth, hf, hk]
    rfl
  rw [htruth]
  rfl

theorem flag_predicate_selects {d : Dialect} {P : Primitives} {m : MemoRow} {offset : Nat}
    {name : String} {f : Field} {s : Statement}
    (hf : memoSchema.field? name = some f) (hk : f.kind = .jsonBool)
    (h : Renderer.render ⟨memoSchema, d, offset⟩ (.fieldPredicate name) = .ok s) :
    s.selects d P (.memo m) = (m.flag name).getD false := by
  rw [memo_selects_eq h]
  have htruth : Row.truth (.memo m) d P (.fieldPredicate name) =
      .ofBool ((m.flag name).getD false) := by
    simp only [Row.truth, Row.schema, Condition.truth, fieldPredicateTruth, hf, hk]
    rfl
  rw [htruth, Truth.isTrue_ofBool]
  rfl

theorem flag_negation_selects {d : Dialect} {P : Primitives} {m : MemoRow} {offset : Nat}
    {name : String} {f : Field} {s : Statement}
    (hf : memoSchema.field? name = some f) (hk : f.kind = .jsonBool)
    (h : Renderer.render ⟨memoSchema, d, offset⟩ (.not (.fieldPredicate name)) = .ok s) :
    s.selects d P (.memo m) = !(m.flag name).getD false := by
  rw [memo_selects_eq h]
  have htruth : Row.truth (.memo m) d P (.not (.fieldPredicate name)) =
      .ofBool (!(m.flag name).getD false) := by
    simp only [Row.truth, Row.schema, Condition.truth, fieldPredicateTruth, hf, hk,
      Truth.not_ofBool]
    rfl
  rw [htruth, Truth.isTrue_ofBool]
  rfl

/-- Where a missing flag reads as false in a comparison, spelled out. -/
theorem missingReadsFalse_iff (d : Dialect) (name : String) :
    missingReadsFalse d name = true ↔
      (d = .sqlite ∧ name ≠ "has_task_list") ∨ name = "hidden" := by
  cases d with
  | sqlite =>
      by_cases h : name = "hidden"
      · subst h; simp [missingReadsFalse]
      · simp [missingReadsFalse, h]
  | mysql => simp [missingReadsFalse]
  | postgres => simp [missingReadsFalse]

/-- **A comparison of a payload flag selects the memos its default reading selects if and
only if the key is present, or false does not satisfy the comparison, or the dialect
reads the missing flag as false.**  The bare flag and its negation always do. -/
theorem flag_comparison_correct_iff (d : Dialect) (P : Primitives) (m : MemoRow) (offset : Nat)
    (name : String) (f : Field) (hf : memoSchema.field? name = some f)
    (hk : f.kind = .jsonBool) :
    (∀ op b s, op = .eq ∨ op = .ne → Renderer.render ⟨memoSchema, d, offset⟩
        (.comparison (.fieldRef name) op (.literal (.bool b))) = .ok s →
      ((s.selects d P (.memo m) = true ↔ op.onBool ((m.flag name).getD false) b = true) ↔
        ((m.flag name).isSome = true ∨ op.onBool false b = false ∨
          (d = .sqlite ∧ name ≠ "has_task_list") ∨ name = "hidden"))) ∧
    (∀ s, Renderer.render ⟨memoSchema, d, offset⟩ (.fieldPredicate name) = .ok s →
      (s.selects d P (.memo m) = true ↔ (m.flag name).getD false = true)) ∧
    (∀ s, Renderer.render ⟨memoSchema, d, offset⟩ (.not (.fieldPredicate name)) = .ok s →
      (s.selects d P (.memo m) = true ↔ (m.flag name).getD false = false)) := by
  refine ⟨fun op b s _ hs => ?_, fun s hs => ?_, fun s hs => ?_⟩
  · rw [flag_comparison_selects hf hk hs, ← missingReadsFalse_iff]
    cases hflag : m.flag name with
    | some v => simp [flagTruth]
    | none =>
        cases hreads : missingReadsFalse d name <;>
          cases hop : op.onBool false b <;> simp [flagTruth, hreads, hop, Truth.isTrue, Truth.ofBool]
  · rw [flag_predicate_selects hf hk hs]
  · rw [flag_negation_selects hf hk hs, Bool.not_eq_true']

def plainMemo : MemoRow where
  content := ""
  creatorId := 1
  creatorUsername := some "a"
  createdTs := 0
  updatedTs := 0
  pinned := false
  visibility := "PRIVATE"
  space := none
  payload := {}

theorem flag_comparison_correct_iff_hidden :
    ∃ s, Renderer.render ⟨memoSchema, .mysql, 0⟩
        (.comparison (.fieldRef "hidden") .eq (.literal (.bool false))) = .ok s ∧
      (s.selects .mysql plainPrimitives (.memo plainMemo) = true ↔
        Op.eq.onBool ((plainMemo.flag "hidden").getD false) false = true) :=
  ⟨_, rfl, ((flag_comparison_correct_iff .mysql plainPrimitives plainMemo 0 "hidden" _ rfl rfl).1
    .eq false _ (Or.inl rfl) rfl).mpr (Or.inr (Or.inr (Or.inr rfl)))⟩

/-- `has_task_list == false` renders on the dialect, should select the memo without a task
list, and does not. -/
def MissesPlainMemo (d : Dialect) : Prop :=
  ∃ s, Renderer.render ⟨memoSchema, d, 0⟩
      (.comparison (.fieldRef "has_task_list") .eq (.literal (.bool false))) = .ok s ∧
    Op.eq.onBool ((plainMemo.flag "has_task_list").getD false) false = true ∧
    s.selects d plainPrimitives (.memo plainMemo) = false

theorem has_task_list_false_misses :
    MissesPlainMemo .sqlite ∧ MissesPlainMemo .mysql ∧ MissesPlainMemo .postgres :=
  ⟨⟨_, rfl, rfl, rfl⟩, ⟨_, rfl, rfl, rfl⟩, ⟨_, rfl, rfl, rfl⟩⟩

end Memos.Filter

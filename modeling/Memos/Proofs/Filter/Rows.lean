/-
Memo and attachment rows represent the views the filter language is defined over.

One case per field and dialect: the column expression the schema gives the field,
evaluated on the row, is the value the view has for it.
-/
import Mathlib.Data.List.Basic
import Memos.Filter.Rows
import Memos.Proofs.Filter.Leaves

namespace Memos.Filter

open Sql Kleene

/-! ### Members of the payload -/

theorem get?_obj_append (l₁ l₂ : List (String × Json)) (key : String) :
    (Json.obj (l₁ ++ l₂)).get? key = ((Json.obj l₁).get? key).or ((Json.obj l₂).get? key) := by
  simp [Json.get?, List.find?_append, Option.map_or]

theorem get?_jsonMember (key key' : String) (value : Option Json) :
    (Json.obj (jsonMember key value)).get? key' = if key = key' then value else none := by
  cases value with
  | none => simp [jsonMember, Json.get?]
  | some j =>
      by_cases h : key = key'
      · simp [jsonMember, Json.get?, h]
      · simp [jsonMember, Json.get?, h]

namespace MemoPayload

variable (p : MemoPayload)

theorem get?_property : p.toJson.get? "property" = p.property.map MemoProperty.toJson := by
  simp [toJson, get?_obj_append, get?_jsonMember]

theorem get?_location : p.toJson.get? "location" = p.location.map .obj := by
  simp [toJson, get?_obj_append, get?_jsonMember]

theorem get?_tags : p.toJson.get? "tags" = p.tags.map fun tags => .arr (tags.map .str) := by
  simp [toJson, get?_obj_append, get?_jsonMember]

theorem get?_category : p.toJson.get? "category" = p.category.map .str := by
  simp [toJson, get?_obj_append, get?_jsonMember]

theorem get?_publishTs : p.toJson.get? "publishTs" = p.publishTs.map .str := by
  simp [toJson, get?_obj_append, get?_jsonMember]

theorem get?_hidden : p.toJson.get? "hidden" = p.hidden.map .bool := by
  simp [toJson, get?_obj_append, get?_jsonMember]

theorem get?_draft : p.toJson.get? "draft" = p.draft.map .bool := by
  simp [toJson, get?_obj_append, get?_jsonMember]

theorem get?_quarantined : p.toJson.get? "quarantined" = p.quarantined.map .bool := by
  simp [toJson, get?_obj_append, get?_jsonMember]

/-- A flag under `property`, reached through both keys. -/
theorem path?_property {key : String} (field : MemoProperty → Option Bool)
    (h : ∀ q : MemoProperty, q.toJson.get? key = (field q).map .bool) :
    p.toJson.path? ["property", key] = (p.property.bind field).map .bool := by
  simp only [Json.path?, get?_property]
  cases p.property with
  | none => rfl
  | some q =>
      simp only [Option.map_some, Option.bind_some, h]
      cases field q <;> rfl

theorem path?_single {j : Json} {key : String} {flag : Option Bool}
    (h : j.get? key = flag.map .bool) : j.path? [key] = flag.map .bool := by
  rw [Json.path?, h]
  cases flag <;> rfl

end MemoPayload

namespace MemoProperty

theorem get?_hasLink (q : MemoProperty) : q.toJson.get? "hasLink" = q.hasLink.map .bool := by
  simp [toJson, get?_obj_append, get?_jsonMember]

theorem get?_hasTaskList (q : MemoProperty) :
    q.toJson.get? "hasTaskList" = q.hasTaskList.map .bool := by
  simp [toJson, get?_obj_append, get?_jsonMember]

theorem get?_hasCode (q : MemoProperty) : q.toJson.get? "hasCode" = q.hasCode.map .bool := by
  simp [toJson, get?_obj_append, get?_jsonMember]

theorem get?_hasIncompleteTasks (q : MemoProperty) :
    q.toJson.get? "hasIncompleteTasks" = q.hasIncompleteTasks.map .bool := by
  simp [toJson, get?_obj_append, get?_jsonMember]

end MemoProperty

/-! ### JSON paths on each dialect -/

/-- What a dialect's path expression makes of the JSON value it finds. -/
def pathValue (d : Dialect) (E : Engine) (leaf : Option Json) : Value :=
  match leaf with
  | none => .null
  | some j =>
    match d with
    | .sqlite => Engine.ofScalar j
    | .mysql => .json j
    | .postgres => E.textMember j

theorem buildPostgresJSONAccessor_null {E : Engine} {env : Env} {base : Expr}
    (h : base.eval E env = .null) (terminalText : Bool) (path : List Name) :
    (buildPostgresJSONAccessor base terminalText path).eval E env = .null := by
  induction path generalizing base with
  | nil => exact h
  | cons key rest ih =>
      cases rest with
      | nil => cases terminalText <;> simp [buildPostgresJSONAccessor, h]
      | cons next rest =>
          rw [buildPostgresJSONAccessor]
          · exact ih (by simp [h])
          · exact List.cons_ne_nil _ _

theorem buildPostgresJSONAccessor_eval {E : Engine} {env : Env} {base : Expr} {j : Json}
    (h : base.eval E env = .json j) (key : Name) (path : List Name) :
    (buildPostgresJSONAccessor base true (key :: path)).eval E env =
      pathValue .postgres E (j.path? ((key :: path).map Name.text)) := by
  induction path generalizing base key j with
  | nil =>
      simp only [buildPostgresJSONAccessor, if_true, Expr.eval, h, List.map_cons, List.map_nil,
        Json.path?]
      cases j.get? key.text <;> rfl
  | cons next rest ih =>
      rw [buildPostgresJSONAccessor, List.map_cons, Json.path?]
      · cases hk : j.get? key.text with
        | none =>
            rw [buildPostgresJSONAccessor_null (by simp [h, hk])]
            rfl
        | some inner =>
            have hinner : (Expr.arrow base key).eval E env = .json inner := by simp [h, hk]
            rw [ih hinner]
            rfl
      · exact List.cons_ne_nil _ _

theorem jsonExtractExpr_eval {d : Dialect} {P : Primitives} {env : Env} {f : Field} {j : Json}
    (h : (qualifyColumn d f.column).eval (d.engine P) env = .json j) (hpath : f.jsonPath ≠ []) :
    (jsonExtractExpr d f).eval (d.engine P) env =
      pathValue d (d.engine P) (j.path? (f.jsonPath.map Name.text)) := by
  cases d
  case postgres =>
    cases hp : f.jsonPath with
    | nil => exact absurd hp hpath
    | cons key rest =>
        simp only [jsonExtractExpr, hp]
        exact buildPostgresJSONAccessor_eval h key rest
  all_goals
    simp only [jsonExtractExpr, Expr.eval, h]
    cases j.path? _ <;> rfl

theorem pathValue_bool (d : Dialect) (E : Engine) (flag : Option Bool) :
    pathValue d E (flag.map .bool) = encodeFlag d flag := by
  rcases flag with _ | _ <;> cases d <;> rfl

/-! ### Column expressions -/

section Expressions

variable {d : Dialect} {P : Primitives} {env : Env} {e : Expr}

theorem resourceExpr_eval (pre : Name) {u : Option String}
    (h : e.eval (d.engine P) env = optionText u) :
    (resourceExpr pre d e).eval (d.engine P) env = optionText (u.map (pre.text ++ ·)) := by
  cases d <;> cases u <;> simp only [resourceExpr, Expr.eval, h] <;> rfl

theorem spaceName_eval {absent : Dialect → Pred} {plain : ∀ d, (absent d).holes = []}
    {space : Option MemoSpace} {expr : Override} (hexpr : spaceName absent plain d = some expr)
    (habsent : (absent d).eval (d.engine P) env = .ofBool space.isNone)
    (h : e.eval (d.engine P) env = optionText (space.bind MemoSpace.uid)) :
    (expr.apply e).eval (d.engine P) env = spaceValue space := by
  cases hexpr
  simp only [Expr.eval, Pred.eval, habsent, Truth.isTrue_ofBool]
  rcases space with _ | ⟨_, _ | uid⟩
  · rfl
  · simp only [h]; rfl
  · simp only [h, resourceExpr_eval ⟨"spaces/", by decide⟩ h]
    rfl

theorem payloadText_eval (key : Name) {j : Json} {v : Option String}
    (h : e.eval (d.engine P) env = .json j) (hkey : j.get? key.text = v.map .str) :
    (payloadText key d e).eval (d.engine P) env = optionText v := by
  cases d <;> cases v <;>
    simp only [payloadText, Expr.eval, h, List.map_cons, List.map_nil, Json.path?, hkey] <;> rfl

theorem toBigint_eval {v : Option String} (h : e.eval (d.engine P) env = optionText v) :
    (toBigint d e).eval (d.engine P) env = optionInt (v.map fun s => P.toInt (.text s)) := by
  cases d <;> cases v <;> simp only [toBigint, Expr.eval, h] <;> rfl

end Expressions

/-! ### Memo rows -/

/-- A fact about every field of a schema holds of a field found by name. -/
theorem Schema.of_field? {S : Schema} {motive : Field → Prop} (h : S.fields.Forall motive)
    {name : String} {f : Field} (hf : S.field? name = some f) : f.name = name ∧ motive f :=
  ⟨Schema.field?_name hf, List.forall_iff_forall_mem.mp h f (List.mem_of_find?_eq_some hf)⟩

section Memo

variable (m : MemoRow) (d : Dialect) (P : Primitives) (env : Env)

theorem memo_creator (henv : env.column = m.column d) :
    (resourceExpr ⟨"users/", by decide⟩ d (qualifyColumn d
      ⟨⟨"memo_creator", by decide⟩, ⟨"username", by decide⟩⟩)).eval (d.engine P) env =
      optionText (m.creatorUsername.map ("users/" ++ ·)) := by
  refine resourceExpr_eval ⟨"users/", by decide⟩ ?_
  cases d <;> simp only [qualifyColumn, Expr.eval, henv] <;> rfl

theorem memo_payload (henv : env.column = m.column d) :
    (qualifyColumn d (memoColumn ⟨"payload", by decide⟩)).eval (d.engine P) env =
      .json m.payload.toJson := by
  cases d <;> simp only [qualifyColumn, memoColumn, Expr.eval, henv] <;> rfl

theorem memo_space {expr : Override}
    (hexpr : spaceName memoSpaceAbsent memoSpaceAbsent_holes d = some expr)
    (henv : env.column = m.column d) :
    (expr.apply (qualifyColumn d ⟨⟨"memo_space", by decide⟩, ⟨"uid", by decide⟩⟩)).eval
      (d.engine P) env = spaceValue m.space := by
  refine spaceName_eval hexpr ?_ ?_
  · cases d <;> simp only [memoSpaceAbsent, qualifyColumn, memoColumn, Pred.eval, Expr.eval, henv,
      MemoRow.column] <;> cases m.space <;> rfl
  · cases d <;> simp only [qualifyColumn, Expr.eval, henv] <;> rfl

theorem memo_publishTs {expr : Override} (hexpr : publishTsExpr d = some expr)
    (henv : env.column = m.column d) :
    (expr.apply (qualifyColumn d (memoColumn ⟨"payload", by decide⟩))).eval (d.engine P) env =
      .int ((m.payload.publishTs.map fun s => P.toInt (.text s)).getD 0) := by
  cases hexpr
  have hpayload := memo_payload m d P env henv
  have htext := payloadText_eval ⟨"publishTs", by decide⟩ hpayload
    (MemoPayload.get?_publishTs m.payload)
  rw [Expr.eval, toBigint_eval htext]
  cases m.payload.publishTs <;> rfl

theorem memo_category {expr : Override} (hexpr : categoryExpr d = some expr)
    (henv : env.column = m.column d) :
    (expr.apply (qualifyColumn d (memoColumn ⟨"payload", by decide⟩))).eval (d.engine P) env =
      .text (m.payload.category.getD "") := by
  cases hexpr
  have hpayload := memo_payload m d P env henv
  rw [Expr.eval, payloadText_eval ⟨"category", by decide⟩ hpayload
    (MemoPayload.get?_category m.payload)]
  cases m.payload.category <;> rfl

theorem memo_value (henv : env.column = m.column d) :
    memoSchema.fields.Forall fun f =>
      (f.columnExpr d).eval (d.engine P) env = m.value d P f.name := by
  obtain ⟨column, arg, element⟩ := env
  refine ⟨?_, ?_, ?_, ?_, ?_, ?_, ?_, ?_, ?_, ?_, ?_, ?_, ?_, ?_, ?_, ?_, ?_, ?_, ?_, ?_⟩
  case refine_2 => exact memo_creator m d P _ henv
  case refine_8 => exact memo_space m d P _ rfl henv
  case refine_19 => exact memo_publishTs m d P _ rfl henv
  case refine_20 => exact memo_category m d P _ rfl henv
  all_goals
    subst henv
    cases d <;> rfl

theorem memo_fieldColumn (henv : env.column = m.column d) :
    memoSchema.fields.Forall fun f =>
      (qualifyColumn d f.column).eval (d.engine P) env = m.fieldColumn d f.name := by
  obtain ⟨column, arg, element⟩ := env
  subst henv
  refine ⟨?_, ?_, ?_, ?_, ?_, ?_, ?_, ?_, ?_, ?_, ?_, ?_, ?_, ?_, ?_, ?_, ?_, ?_, ?_, ?_⟩ <;>
    cases d <;> rfl

theorem memo_flag : memoSchema.fields.Forall fun f => f.kind = .jsonBool →
    f.jsonPath ≠ [] ∧ f.column = memoColumn ⟨"payload", by decide⟩ ∧
      m.payload.toJson.path? (f.jsonPath.map Name.text) = (m.flag f.name).map .bool := by
  refine ⟨?_, ?_, ?_, ?_, ?_, ?_, ?_, ?_, ?_, ?_, ?_, ?_, ?_, ?_, ?_, ?_, ?_, ?_, ?_, ?_⟩ <;>
    intro hk
  case refine_11 =>
    exact ⟨List.cons_ne_nil _ _, rfl,
      MemoPayload.path?_property _ MemoProperty.hasTaskList MemoProperty.get?_hasTaskList⟩
  case refine_12 =>
    exact ⟨List.cons_ne_nil _ _, rfl,
      MemoPayload.path?_property _ MemoProperty.hasLink MemoProperty.get?_hasLink⟩
  case refine_13 =>
    exact ⟨List.cons_ne_nil _ _, rfl,
      MemoPayload.path?_property _ MemoProperty.hasCode MemoProperty.get?_hasCode⟩
  case refine_14 =>
    exact ⟨List.cons_ne_nil _ _, rfl,
      MemoPayload.path?_property _ MemoProperty.hasIncompleteTasks
        MemoProperty.get?_hasIncompleteTasks⟩
  case refine_16 =>
    exact ⟨List.cons_ne_nil _ _, rfl, MemoPayload.path?_single (MemoPayload.get?_hidden _)⟩
  case refine_17 =>
    exact ⟨List.cons_ne_nil _ _, rfl, MemoPayload.path?_single (MemoPayload.get?_draft _)⟩
  case refine_18 =>
    exact ⟨List.cons_ne_nil _ _, rfl, MemoPayload.path?_single (MemoPayload.get?_quarantined _)⟩
  all_goals cases hk

theorem memo_list : memoSchema.fields.Forall fun f => f.kind = .jsonList →
    ∀ env : Env, env.column = m.column d →
      (jsonArrayOrEmpty d f).eval (d.engine P) env =
        .json (.arr ((m.payload.tags.getD []).map .str)) := by
  refine ⟨?_, ?_, ?_, ?_, ?_, ?_, ?_, ?_, ?_, ?_, ?_, ?_, ?_, ?_, ?_, ?_, ?_, ?_, ?_, ?_⟩ <;>
    intro hk
  case refine_9 =>
    intro env henv
    have hpayload := memo_payload m d P env henv
    cases d <;>
      simp only [jsonArrayOrEmpty, jsonArrayExpr, buildPostgresJSONAccessor, Expr.eval, hpayload,
        Bool.false_eq_true, if_false, List.map_cons, List.map_nil, Json.path?,
        MemoPayload.get?_tags] <;>
      cases m.payload.tags <;> rfl
  all_goals cases hk

theorem memo_present (offset : Nat) : memoSchema.fields.Forall fun f => f.kind = .jsonExists →
    ∀ env : Env, env.column = m.column d →
      (jsonExistsSQL ⟨memoSchema, d, offset⟩ f).eval (d.engine P) env =
        .ofBool m.payload.location.isSome := by
  refine ⟨?_, ?_, ?_, ?_, ?_, ?_, ?_, ?_, ?_, ?_, ?_, ?_, ?_, ?_, ?_, ?_, ?_, ?_, ?_, ?_⟩ <;>
    intro hk
  case refine_15 =>
    intro env henv
    have hextract := jsonExtractExpr_eval (P := P)
      (f := ⟨"has_location", .jsonExists, .bool, memoColumn ⟨"payload", by decide⟩,
        [⟨"location", by decide⟩], "", fun _ => none⟩)
      (memo_payload m d P env henv) (List.cons_ne_nil _ _)
    cases d
    case mysql =>
      simp only [jsonExistsSQL, Pred.eval, Expr.eval, hextract, List.map_cons, List.map_nil,
        Json.path?, MemoPayload.get?_location]
      cases m.payload.location with
      | none => exact congrArg Truth.ofBool P.typeNames_agree
      | some l => exact congrArg Truth.ofBool P.typeNames_differ
    all_goals
      simp only [jsonExistsSQL, Pred.eval, hextract, List.map_cons, List.map_nil,
        Json.path?, MemoPayload.get?_location]
      cases m.payload.location <;> rfl
  all_goals cases hk

/-- **A memo row represents its view**, on every dialect. -/
theorem memo_represents (offset : Nat) (henv : env.column = m.column d) :
    Represents ⟨memoSchema, d, offset⟩ (d.engine P) env (m.view d P) where
  value name f hf := by
    obtain ⟨rfl, h⟩ := Schema.of_field? (memo_value m d P env henv) hf
    exact h
  column name f hf := by
    obtain ⟨rfl, h⟩ := Schema.of_field? (memo_fieldColumn m d P env henv) hf
    exact h
  bool name f hf hk := by
    have hbool : memoSchema.fields.Forall fun f => f.kind = .boolColumn → f.name = "pinned" := by
      refine ⟨?_, ?_, ?_, ?_, ?_, ?_, ?_, ?_, ?_, ?_, ?_, ?_, ?_, ?_, ?_, ?_, ?_, ?_, ?_, ?_⟩ <;>
        intro hk <;> first | rfl | cases hk
    obtain ⟨rfl, h⟩ := Schema.of_field? hbool hf
    show m.fieldColumn d f.name = encodeBool d m.pinned
    rw [h hk]
    rfl
  flag name f hf hk := by
    obtain ⟨rfl, h⟩ := Schema.of_field? (memo_flag m) hf
    obtain ⟨hpath, hcol, hflag⟩ := h hk
    have hpayload := memo_payload m d P env henv
    rw [jsonExtractExpr_eval (by rw [hcol]; exact hpayload) hpath, hflag, pathValue_bool]
    rfl
  present name f hf hk := by
    obtain ⟨rfl, h⟩ := Schema.of_field? (memo_present m d P offset) hf
    exact h hk env henv
  list name f hf hk := by
    obtain ⟨rfl, h⟩ := Schema.of_field? (memo_list m d P) hf
    exact h hk env henv
  tagList f hf := by cases hf; rfl

end Memo

/-! ### Attachment rows -/

section Attachment

variable (a : AttachmentRow) (d : Dialect) (P : Primitives) (env : Env)

theorem attachment_space {expr : Override}
    (hexpr : spaceName attachmentSpaceAbsent attachmentSpaceAbsent_holes d = some expr)
    (henv : env.column = a.column d) :
    (expr.apply (qualifyColumn d ⟨⟨"attachment_space", by decide⟩, ⟨"uid", by decide⟩⟩)).eval
      (d.engine P) env = spaceValue (a.memo.bind LinkedMemo.space) := by
  refine spaceName_eval hexpr ?_ ?_
  · cases d <;> simp only [attachmentSpaceAbsent, qualifyColumn, memoColumn, attachmentColumn,
      Pred.eval, Expr.eval, henv, AttachmentRow.column] <;>
      rcases a.memo with _ | ⟨_, _ | _⟩ <;> rfl
  · cases d <;> simp only [qualifyColumn, Expr.eval, henv] <;> rfl

theorem attachment_value (henv : env.column = a.column d) :
    attachmentSchema.fields.Forall fun f =>
      (f.columnExpr d).eval (d.engine P) env = a.value f.name := by
  obtain ⟨column, arg, element⟩ := env
  refine ⟨?_, ?_, ?_, ?_, ?_⟩
  case refine_5 => exact attachment_space a d P _ rfl henv
  all_goals
    subst henv
    cases d <;> rfl

theorem attachment_fieldColumn (henv : env.column = a.column d) :
    attachmentSchema.fields.Forall fun f =>
      (qualifyColumn d f.column).eval (d.engine P) env = a.fieldColumn d f.name := by
  obtain ⟨column, arg, element⟩ := env
  subst henv
  refine ⟨?_, ?_, ?_, ?_, ?_⟩ <;> cases d <;> rfl

theorem attachment_scalar : attachmentSchema.fields.Forall fun f => f.kind = .scalar :=
  ⟨rfl, rfl, rfl, rfl, rfl⟩

/-- **An attachment row represents its view**, on every dialect. -/
theorem attachment_represents (offset : Nat) (henv : env.column = a.column d) :
    Represents ⟨attachmentSchema, d, offset⟩ (d.engine P) env (a.view d) where
  value name f hf := by
    obtain ⟨rfl, h⟩ := Schema.of_field? (attachment_value a d P env henv) hf
    exact h
  column name f hf := by
    obtain ⟨rfl, h⟩ := Schema.of_field? (attachment_fieldColumn a d P env henv) hf
    exact h
  bool name f hf hk := by
    obtain ⟨rfl, h⟩ := Schema.of_field? attachment_scalar hf
    rw [h] at hk
    cases hk
  flag name f hf hk := by
    obtain ⟨rfl, h⟩ := Schema.of_field? attachment_scalar hf
    rw [h] at hk
    cases hk
  present name f hf hk := by
    obtain ⟨rfl, h⟩ := Schema.of_field? attachment_scalar hf
    rw [h] at hk
    cases hk
  list name f hf hk := by
    obtain ⟨rfl, h⟩ := Schema.of_field? attachment_scalar hf
    rw [h] at hk
    cases hk
  tagList f hf := by cases hf

end Attachment

theorem row_represents (row : Row) (d : Dialect) (P : Primitives) (offset : Nat) {env : Env}
    (henv : env.column = row.column d) :
    Represents ⟨row.schema, d, offset⟩ (d.engine P) env (row.view d P) := by
  cases row with
  | memo m => exact memo_represents m d P env offset henv
  | attachment a => exact attachment_represents a d P env offset henv

end Memos.Filter

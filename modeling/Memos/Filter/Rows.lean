/-
The rows a filter is run against.

A memo row is joined with its creator and its space, an attachment row with its memo
and that memo's space; every join is a left one, so each joined value may be missing.
The payload is the JSON the store writes, of which only the keys a filter reads are
kept; a flag is absent when `protojson` had nothing to write.
-/
import Memos.Filter.Semantics

namespace Memos.Filter

open Sql Kleene

/-! ### Engines -/

/-- The engine behind a dialect: how it extracts JSON, whether it has `IN ()`, and that
SQLite's `REGEXP`, a function of the store, answers false on `NULL`. -/
def Dialect.engine (d : Dialect) (P : Primitives) : Engine :=
  { P with
    extractsScalars := d = .sqlite
    emptyInList := d = .sqlite
    matchNull := fun op => if d = .sqlite ∧ op = .regexp then .fails else .unknown }

def encodeTimestamp (d : Dialect) (seconds : Int) : Value :=
  match d with
  | .mysql => .timestamp seconds
  | _ => .int seconds

def optionText : Option String → Value
  | none => .null
  | some s => .text s

def optionInt : Option Int → Value
  | none => .null
  | some n => .int n

/-! ### Memos -/

structure MemoProperty where
  hasLink : Option Bool := none
  hasTaskList : Option Bool := none
  hasCode : Option Bool := none
  hasIncompleteTasks : Option Bool := none

structure MemoPayload where
  property : Option MemoProperty := none
  location : Option (List (String × Json)) := none
  tags : Option (List String) := none
  category : Option String := none
  hidden : Option Bool := none
  draft : Option Bool := none
  /-- A 64-bit integer, which JSON carries as a string. -/
  publishTs : Option String := none
  quarantined : Option Bool := none

def jsonMember (key : String) (value : Option Json) : List (String × Json) :=
  match value with
  | none => []
  | some j => [(key, j)]

def MemoProperty.toJson (p : MemoProperty) : Json :=
  .obj (jsonMember "hasLink" (p.hasLink.map .bool) ++
    jsonMember "hasTaskList" (p.hasTaskList.map .bool) ++
    jsonMember "hasCode" (p.hasCode.map .bool) ++
    jsonMember "hasIncompleteTasks" (p.hasIncompleteTasks.map .bool))

def MemoPayload.toJson (p : MemoPayload) : Json :=
  .obj (jsonMember "property" (p.property.map MemoProperty.toJson) ++
    jsonMember "location" (p.location.map .obj) ++
    jsonMember "tags" (p.tags.map fun tags => .arr (tags.map .str)) ++
    jsonMember "category" (p.category.map .str) ++
    jsonMember "hidden" (p.hidden.map .bool) ++
    jsonMember "draft" (p.draft.map .bool) ++
    jsonMember "publishTs" (p.publishTs.map .str) ++
    jsonMember "quarantined" (p.quarantined.map .bool))

/-- The space a memo is in: its id, and its identifier when the space still exists. -/
structure MemoSpace where
  id : Int
  uid : Option String

structure MemoRow where
  content : String
  creatorId : Int
  creatorUsername : Option String
  createdTs : Int
  updatedTs : Int
  pinned : Bool
  visibility : String
  space : Option MemoSpace
  payload : MemoPayload

/-- The resource name of a space, empty for one that is gone. -/
def MemoSpace.resourceName (s : MemoSpace) : String :=
  match s.uid with
  | none => ""
  | some uid => "spaces/" ++ uid

def spaceValue : Option MemoSpace → Value
  | none => .null
  | some s => .text s.resourceName

namespace MemoRow

variable (m : MemoRow) (d : Dialect)

def column (table name : String) : Value :=
  match table, name with
  | "memo", "content" => .text m.content
  | "memo", "creator_id" => .int m.creatorId
  | "memo", "created_ts" => encodeTimestamp d m.createdTs
  | "memo", "updated_ts" => encodeTimestamp d m.updatedTs
  | "memo", "pinned" => encodeBool d m.pinned
  | "memo", "visibility" => .text m.visibility
  | "memo", "payload" => .json m.payload.toJson
  | "memo", "space_id" => optionInt (m.space.map MemoSpace.id)
  | "memo_creator", "username" => optionText m.creatorUsername
  | "memo_space", "uid" => optionText (m.space.bind MemoSpace.uid)
  | _, _ => .null

def flag (name : String) : Option Bool :=
  match name with
  | "has_task_list" => m.payload.property.bind MemoProperty.hasTaskList
  | "has_link" => m.payload.property.bind MemoProperty.hasLink
  | "has_code" => m.payload.property.bind MemoProperty.hasCode
  | "has_incomplete_tasks" => m.payload.property.bind MemoProperty.hasIncompleteTasks
  | "hidden" => m.payload.hidden
  | "draft" => m.payload.draft
  | "quarantined" => m.payload.quarantined
  | _ => none

def value (P : Primitives) (name : String) : Value :=
  match name with
  | "content" => .text m.content
  | "creator" => optionText (m.creatorUsername.map ("users/" ++ ·))
  | "creator_id" => .int m.creatorId
  | "created_ts" => .int m.createdTs
  | "updated_ts" => .int m.updatedTs
  | "pinned" => encodeBool d m.pinned
  | "visibility" => .text m.visibility
  | "space" => spaceValue m.space
  | "publish_ts" => .int ((m.payload.publishTs.map fun s => P.toInt (.text s)).getD 0)
  | "category" => .text (m.payload.category.getD "")
  | "tag" => .null
  | _ => .json m.payload.toJson

/-- The bare column behind a field of the memo schema. -/
def fieldColumn (name : String) : Value :=
  match name with
  | "content" => .text m.content
  | "creator" => optionText m.creatorUsername
  | "creator_id" => .int m.creatorId
  | "created_ts" => encodeTimestamp d m.createdTs
  | "updated_ts" => encodeTimestamp d m.updatedTs
  | "pinned" => encodeBool d m.pinned
  | "visibility" => .text m.visibility
  | "space" => optionText (m.space.bind MemoSpace.uid)
  | "tag" => .null
  | _ => .json m.payload.toJson

def view (P : Primitives) : RowView where
  value := m.value d P
  column := m.fieldColumn d
  bool _ := m.pinned
  flag := m.flag
  present _ := m.payload.location.isSome
  list _ := m.payload.tags.getD []

end MemoRow

/-! ### Attachments -/

/-- The memo an attachment is linked to: its id, and the space of the memo row when the
join finds one. -/
structure LinkedMemo where
  id : Int
  space : Option MemoSpace

structure AttachmentRow where
  filename : String
  type : String
  createdTs : Int
  memo : Option LinkedMemo

namespace AttachmentRow

variable (a : AttachmentRow) (d : Dialect)

def column (table name : String) : Value :=
  match table, name with
  | "attachment", "filename" => .text a.filename
  | "attachment", "type" => .text a.type
  | "attachment", "created_ts" => encodeTimestamp d a.createdTs
  | "attachment", "memo_id" => optionInt (a.memo.map LinkedMemo.id)
  | "memo", "space_id" => optionInt ((a.memo.bind LinkedMemo.space).map MemoSpace.id)
  | "attachment_space", "uid" => optionText ((a.memo.bind LinkedMemo.space).bind MemoSpace.uid)
  | _, _ => .null

def value (name : String) : Value :=
  match name with
  | "filename" => .text a.filename
  | "mime_type" => .text a.type
  | "create_time" => .int a.createdTs
  | "memo_id" => optionInt (a.memo.map LinkedMemo.id)
  | _ => spaceValue (a.memo.bind LinkedMemo.space)

/-- The bare column behind a field of the attachment schema. -/
def fieldColumn (name : String) : Value :=
  match name with
  | "filename" => .text a.filename
  | "mime_type" => .text a.type
  | "create_time" => encodeTimestamp d a.createdTs
  | "memo_id" => optionInt (a.memo.map LinkedMemo.id)
  | _ => optionText ((a.memo.bind LinkedMemo.space).bind MemoSpace.uid)

def view : RowView where
  value := a.value
  column := a.fieldColumn d
  bool _ := false
  flag _ := none
  present _ := false
  list _ := []

end AttachmentRow

/-! ### Selection -/

inductive Row where
  | memo (m : MemoRow)
  | attachment (a : AttachmentRow)

namespace Row

def schema : Row → Schema
  | memo _ => memoSchema
  | attachment _ => attachmentSchema

def column (d : Dialect) : Row → String → String → Value
  | memo m => m.column d
  | attachment a => a.column d

def view (d : Dialect) (P : Primitives) : Row → RowView
  | memo m => m.view d P
  | attachment a => a.view d

end Row

/-- The row and the arguments a statement is evaluated over: each placeholder stands for
the argument it was emitted for. -/
def Statement.env (s : Statement) (d : Dialect) (row : Row) : Env where
  column := row.column d
  arg k := s.args.getD k .null

/-- **A statement selects a row** when it restricts nothing or its condition is true there. -/
def Statement.selects (s : Statement) (d : Dialect) (P : Primitives) (row : Row) : Bool :=
  match s.sql with
  | none => true
  | some p => p.selects (d.engine P) (s.env d row)

end Memos.Filter

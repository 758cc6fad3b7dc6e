/-
The list of the categories of an instance.

An administrator submits it as a whole.  Categories that are gone are cleared from their
memos, and memo names, by which older lists say what is in a category, become the
categories of the memos they name.  Then the list is stored without the names.

The memos are written one after the other, so the store may fail between two of them.
-/
import Memos.Api.PayloadWriters
import Memos.Lib.Durable

namespace Memos.Api

open Store Access Durable

/-! ### The list -/

structure InstanceMemoCategoryEntry extends InstanceMemoCategory where
  title : String
  description : String
  memoNames : List String

/-- `encoding/json` for lists of categories. -/
structure CategoryJson where
  unmarshal : String → Except String (List InstanceMemoCategoryEntry)
  marshal : List InstanceMemoCategoryEntry → String

inductive CategoryError where
  | parse (message : String)
  | update (err : StoreError)
  /-- "failed to clear memo category" -/
  | clear (err : StoreError)

def CategoryJson.parse (json : CategoryJson) (raw : String) :
    Except CategoryError (List InstanceMemoCategoryEntry) :=
  let raw := trimSpace raw.toList
  if raw.isEmpty then .ok []
  else
    (json.unmarshal (String.ofList raw)).mapError fun e =>
      .parse ("failed to parse memo categories json: " ++ e)

/-- The memo names are dropped, and so is an entry without a slug. -/
def sanitizeInstanceMemoCategories (categories : List InstanceMemoCategoryEntry) :
    List InstanceMemoCategoryEntry :=
  categories.filterMap fun category =>
    let slug := trimSpace category.slug.toList
    if slug = [] then none
    else
      some
        { category with
          slug := String.ofList slug
          title := String.ofList (trimSpace category.title.toList)
          memoNames := [] }

def CategoryJson.encode (json : CategoryJson) (categories : List InstanceMemoCategoryEntry) :
    String :=
  if categories.isEmpty then "[]" else json.marshal categories

def categorySlugSet (categories : List InstanceMemoCategoryEntry) : List String :=
  (categories.map (·.slug)).filter (· ≠ "")

/-! ### The memos -/

/-- Between two writes the store may fail; a write is named by the memo. -/
abbrev CategoryProcess := Process Int State CategoryError

variable (service : APIV1Service) (now : Int)

/-- `store.UpdateMemo{ID, Payload}` with another category. -/
def APIV1Service.writeCategory (memo : MemoRow) (category : String)
    (failed : StoreError → CategoryError) : CategoryProcess Unit :=
  Process.write memo.id fun state =>
    (Store.updateMemo service.validUID state now
      (payloadUpdate memo { memo.payload with category })).mapError failed

def APIV1Service.setMemoCategoryByUID (memoUID category : String) : CategoryProcess Unit := do
  let memo ← Process.check fun state => .ok (getMemo state memoUID)
  match memo with
  | none => pure ()
  | some memo =>
      Process.onlyIf (memo.payload.category ≠ category)
        (service.writeCategory now memo category .update)

/-- `ListMemos` with the filter for the category, the newest first. -/
def memosInCategory (state : State) (category : String) : List MemoRow :=
  (state.memos.select fun memo =>
    decide (memo.deletedTs = none) && decide (memo.payload.category = category)).insertionSort
      fun a b => b.createdTs < a.createdTs
        || (decide (b.createdTs = a.createdTs) && decide (b.id ≤ a.id))

def APIV1Service.clearMemosInCategory (category : String) : CategoryProcess Unit :=
  let category := String.ofList (trimSpace category.toList)
  if category = "" then pure ()
  else do
    let memos ← Process.check fun state => .ok (memosInCategory state category)
    Process.forEach memos fun memo =>
      Process.onlyIf (memo.payload.category ≠ "") (service.writeCategory now memo "" .clear)

/-- The memos an entry names; a name that is none is passed over. -/
def APIV1Service.migrateMemoNames (category : InstanceMemoCategoryEntry) : CategoryProcess Unit :=
  Process.forEach category.memoNames fun memoName =>
    match service.ExtractMemoUIDFromName memoName with
    | .error _ => pure ()
    | .ok memoUID => service.setMemoCategoryByUID now memoUID category.slug

/-- The result is what is stored next. -/
def APIV1Service.prepareMemoCategoriesForGeneralUpdate (json : CategoryJson)
    (existingJSON nextJSON : String) : CategoryProcess String := do
  let oldCategories ← Process.check fun _ => json.parse existingJSON
  let nextCategories ← Process.check fun _ => json.parse nextJSON
  let nextSlugSet := categorySlugSet nextCategories
  Process.forEach oldCategories fun category =>
    Process.onlyIf (!nextSlugSet.contains category.slug)
      (service.clearMemosInCategory now category.slug)
  Process.forEach nextCategories (service.migrateMemoNames now)
  Process.forEach oldCategories fun category =>
    Process.onlyIf (nextSlugSet.contains category.slug) (service.migrateMemoNames now category)
  return json.encode (sanitizeInstanceMemoCategories nextCategories)

end Memos.Api

/-
The relations that are shown with memos.

A listing loads the relations of all its memos at once.  The memos at the far ends are
fetched by one more query, with the scope of the caller as the audience, and are filtered
as a collection is; a relation of which one end is not found so is left out.  The one
that is shown is shown at each of its ends.

The maps from ids of the source are functions here, and its two maps for names and for
snippets are one.
-/
import Memos.Api.MemoRequest
import Memos.Store.MemoList

namespace Memos.Api

open Store Access

/-! ### Messages -/

inductive MemoRelationMessageType where
  | Unspecified
  | Reference
  | Comment
deriving DecidableEq

structure RelatedMemo where
  name : String
  snippet : String
deriving DecidableEq

structure MemoRelationMessage where
  memo : RelatedMemo
  relatedMemo : RelatedMemo
  type : MemoRelationMessageType
deriving DecidableEq

def convertMemoRelationTypeFromStore : MemoRelationType → MemoRelationMessageType
  | .Reference => .Reference
  | .Comment => .Comment
  | .unrecognised => .Unspecified

/-! ### Converting relations in batches -/

def mergeMemoRelations (groups : List (List MemoRelationRow)) : List MemoRelationRow :=
  groups.flatten.foldl (fun merged r => if r ∈ merged then merged else merged ++ [r]) []

abbrev RelatedMemos := Int → Option RelatedMemo

/-- One round of the loops over memos.  The snippet is the parser's. -/
def RelatedMemos.add (getMemoContentSnippet : String → Except String String)
    (includeSnippets : Bool) (message : String) (known : RelatedMemos) (m : MemoRow) :
    Except String RelatedMemos :=
  if includeSnippets then
    match getMemoContentSnippet m.content with
    | .error e => .error (message ++ e)
    | .ok snippet => .ok (Function.update known m.id (some ⟨buildMemoName m.uid, snippet⟩))
  else .ok (Function.update known m.id (some ⟨buildMemoName m.uid, ""⟩))

/-- The memos at the ends of relations that are not among those at hand. -/
def neededIDs (memoIDs : List Int) (allRelations : List MemoRelationRow) : List Int :=
  (allRelations.flatMap fun r => [r.memoID, r.relatedMemoID]).filter fun id => !memoIDs.contains id

/-- The query for them, made only if there are any, and the filter. -/
def relatedMemos (db : Tables) (now : Int) (accessScope : MemoAccessScope)
    (currentUser : Option UserRow) (extraIDs : List Int) : List MemoRow :=
  if extraIDs.isEmpty then []
  else
    (ListMemos db { idList := extraIDs, access := some accessScope }).filter fun m =>
      memoVisibleInCollection now m currentUser

/-- One round of the loop over relations: the relation is added at both ends. -/
def addRelation (memoIDs : List Int) (known : RelatedMemos)
    (result : Int → List MemoRelationMessage) (r : MemoRelationRow) :
    Int → List MemoRelationMessage :=
  match known r.memoID, known r.relatedMemoID with
  | some memo, some relatedMemo =>
      let relation : MemoRelationMessage :=
        { memo, relatedMemo, type := convertMemoRelationTypeFromStore r.type }
      let append (result : Int → List MemoRelationMessage) (id : Int) :=
        if memoIDs.contains id then Function.update result id (result id ++ [relation]) else result
      append (append result r.memoID) r.relatedMemoID
  | _, _ => result

/-- The relations of the memos at hand, both outgoing and incoming. -/
def relationsOfMemos (db : Tables) (memoIDs : List Int) : List MemoRelationRow :=
  mergeMemoRelations
    [ListMemoRelations db { sourceMemoIDList := memoIDs },
      ListMemoRelations db { relatedMemoIDList := memoIDs }]

/-- A memo without relations has none in the result. -/
def batchConvertMemoRelations (getMemoContentSnippet : String → Except String String)
    (db : Tables) (now authUserID : Int) (memos : List MemoRow) (includeSnippets : Bool) :
    Except String (Int → List MemoRelationMessage) := do
  if memos.isEmpty then return fun _ => []
  let (accessScope, currentUser) ← resolveMemoAccessScope db.toState authUserID
  let memoIDs := memos.map MemoRow.id
  let allRelations := relationsOfMemos db memoIDs
  let known ← memos.foldlM
    (RelatedMemos.add getMemoContentSnippet includeSnippets "failed to get memo content snippet: ")
    fun _ => none
  let known ← (relatedMemos db now accessScope currentUser (neededIDs memoIDs allRelations)).foldlM
    (RelatedMemos.add getMemoContentSnippet includeSnippets
      "failed to get related memo content snippet: ") known
  return allRelations.foldl (addRelation memoIDs known) fun _ => []

end Memos.Api

/-
The metadata of a page from its JSON-LD scripts.

Every object of the decoded scripts is a candidate, and the first one of the best score is
taken.  A decoded object is a map, and the order in which its members are visited is not
fixed: it may be another one for each object and at each time.
-/
import Memos.DailyQuestion.Questions

namespace Memos.Httpgetter

open DailyQuestion

inductive Json where
  | null
  | bool (value : Bool)
  | number (value : Rat)
  | string (text : String)
  | array (items : List Json)
  | object (members : List (String × Json))

abbrev Object := List (String × Json)

structure metadataSource where
  title : String
  description : String
  image : String
  deriving DecidableEq

def metadataSource.empty : metadataSource := ⟨"", "", ""⟩

structure URL where
  Scheme : String
  Hostname : String

mutual

def jsonLDStrings : Json → List String
  | .string text => [text]
  | .array items => jsonLDStringsAll items
  | _ => []

def jsonLDStringsAll : List Json → List String
  | [] => []
  | item :: items => jsonLDStrings item ++ jsonLDStringsAll items

end

def firstJSONString (values : List Json) : String :=
  ((values.flatMap jsonLDStrings).find? fun candidate => TrimSpace candidate ≠ "").getD ""

/-- The member of an object, null when there is none. -/
def member (object : Object) (key : String) : Json := (object.lookup key).getD .null

section Metadata

variable (parse : String → Option URL) (toLower : Char → Char)

def isPotentialHTTPURL (value : String) : Bool :=
  let value := TrimSpace value
  if value = "" then false
  else
    match parse value with
    | none => false
    | some parsed =>
      if parsed.Scheme = "" then !("//".toList.isPrefixOf value.toList) || parsed.Hostname ≠ ""
      else (parsed.Scheme = "http" || parsed.Scheme = "https") && parsed.Hostname ≠ ""

mutual

def jsonLDImage : Json → String
  | .string text => if isPotentialHTTPURL parse text then text else ""
  | .array items => jsonLDImageAll items
  | .object members =>
    let image := jsonLDImageAt "url" members
    if image ≠ "" then image else jsonLDImageAt "contentUrl" members
  | _ => ""

def jsonLDImageAll : List Json → String
  | [] => ""
  | item :: items =>
    let image := jsonLDImage item
    if image ≠ "" then image else jsonLDImageAll items

def jsonLDImageAt (key : String) : List (String × Json) → String
  | [] => ""
  | (name, value) :: members => if key = name then jsonLDImage value else jsonLDImageAt key members

end

def ToLower (text : String) : String := String.ofList (text.toList.map toLower)

/-- The score of one of the types, none for a type that is not listed. -/
def typeScore (name : String) : Option Int :=
  if ["article", "newsarticle", "blogposting", "socialmediaposting", "product", "videoobject", "movie",
    "book", "event", "recipe"].contains name then some 20
  else if ["creativework", "webpage", "profilepage", "aboutpage", "collectionpage"].contains name then
    some 10
  else if ["breadcrumblist", "itemlist"].contains name then some (-10)
  else none

def jsonLDTypeScore (value : Json) : Int :=
  ((jsonLDStrings value).findSome? fun name => typeScore (ToLower toLower name)).getD 0

def candidateOf (object : Object) : metadataSource :=
  let image := jsonLDImage parse (member object "image")
  { title := firstJSONString [member object "headline", member object "name"]
    description := firstJSONString [member object "description"]
    image := if image = "" then jsonLDImage parse (member object "thumbnailUrl") else image }

def scoreOf (object : Object) (candidate : metadataSource) : Int :=
  jsonLDTypeScore toLower (member object "@type")
    + (if candidate.title ≠ "" then 1 else 0) + (if candidate.description ≠ "" then 1 else 0)
    + (if candidate.image ≠ "" then 1 else 0)

/-- One visit: a candidate replaces the best one when its score is higher. -/
def visit (best : metadataSource × Int) (object : Object) : metadataSource × Int :=
  let candidate := candidateOf parse object
  if candidate = .empty then best
  else
    let score := scoreOf toLower object candidate
    if best.2 < score then (candidate, score) else best

mutual

/-- The orders in which `walkJSONLD` may visit the objects of a value. -/
inductive WalkJSONLD : Json → List Object → Prop
  | null : WalkJSONLD .null []
  | bool (value : Bool) : WalkJSONLD (.bool value) []
  | number (value : Rat) : WalkJSONLD (.number value) []
  | string (text : String) : WalkJSONLD (.string text) []
  | array {items : List Json} {visited : List Object} (walk : WalkAll items visited) :
    WalkJSONLD (.array items) visited
  | object {members order : List (String × Json)} {visited : List Object} (perm : order.Perm members)
    (walk : WalkAll (order.map Prod.snd) visited) : WalkJSONLD (.object members) (members :: visited)

/-- Values one after the other. -/
inductive WalkAll : List Json → List Object → Prop
  | nil : WalkAll [] []
  | cons {value : Json} {values : List Json} {visited others : List Object}
    (walk : WalkJSONLD value visited) (rest : WalkAll values others) :
    WalkAll (value :: values) (visited ++ others)

end

def best (visited : List Object) : metadataSource :=
  (visited.foldl (visit parse toLower) (.empty, -1)).1

/-- What the metadata of some scripts may be.  A script that cannot be decoded is left out. -/
def ExtractJSONLDMetadata (decode : String → Option Json) (scripts : List String)
    (metadata : metadataSource) : Prop :=
  ∃ visited, WalkAll (scripts.filterMap decode) visited ∧ metadata = best parse toLower visited

end Metadata

end Memos.Httpgetter

/-
Listing memos page by page.

The listing a request asks for is ordered by the database, but which of its rows the
caller may see in a collection is decided on the decoded row, after the query.  So a
page cannot be a `LIMIT`/`OFFSET` of the query.  `listMemoCollectionPage` reads the
listing in chunks of fixed size, drops the rows that are not visible, drops the first
`visibleOffset` of the others and stops when it has `visibleLimit` of them.

`listMemos` asks it for one row more than the page holds.  The surplus row is the
evidence that another page exists; it is cut off again, and the next page's offset is
handed out as an opaque token that the client sends back.

The listing is the rows the request's query selects, in its order; what the query
selects and which rows are visible are parameters.  The conversion of a row to a
message is one too: it yields nothing for a row whose creator is gone, and such a row
is skipped.
-/
import Memos.Lib.Wire
import Mathlib.Algebra.Group.Nat.Defs
import Mathlib.Algebra.Group.Int.Defs

namespace Memos.Api

/-! ### The chunked scan -/

structure PageState (Row : Type) where
  visibleMemos : List Row
  skippedVisible : Nat

inductive BatchResult (Row : Type) where
  | full (visibleMemos : List Row)
  | more (state : PageState Row)

def scanBatch {Row : Type} (visible : Row → Bool) (visibleOffset visibleLimit : Nat) :
    List Row → PageState Row → BatchResult Row
  | [], state => .more state
  | memo :: rest, state =>
      if !visible memo then
        scanBatch visible visibleOffset visibleLimit rest state
      else if state.skippedVisible < visibleOffset then
        scanBatch visible visibleOffset visibleLimit rest
          { state with skippedVisible := state.skippedVisible + 1 }
      else
        let visibleMemos := state.visibleMemos ++ [memo]
        if visibleMemos.length = visibleLimit then .full visibleMemos
        else scanBatch visible visibleOffset visibleLimit rest { state with visibleMemos }

def batch {Row : Type} (rows : List Row) (limit offset : Nat) : List Row :=
  (rows.drop offset).take limit

theorem batch_length {Row : Type} (rows : List Row) (limit offset : Nat) :
    (batch rows limit offset).length = min limit (rows.length - offset) := by
  rw [batch, List.length_take, List.length_drop]

/-- The loop over batches, entered with `rawOffset` rows of the listing behind it. -/
def scanFrom {Row : Type} (chunkSize : Nat) (visible : Row → Bool)
    (visibleOffset visibleLimit : Nat) (rows : List Row) (rawOffset : Nat)
    (state : PageState Row) : List Row :=
  if state.visibleMemos.length < visibleLimit then
    if (batch rows chunkSize rawOffset).length = 0 then state.visibleMemos
    else
      match scanBatch visible visibleOffset visibleLimit (batch rows chunkSize rawOffset) state with
      | .full visibleMemos => visibleMemos
      | .more state =>
          if (batch rows chunkSize rawOffset).length < chunkSize then state.visibleMemos
          else
            scanFrom chunkSize visible visibleOffset visibleLimit rows
              (rawOffset + (batch rows chunkSize rawOffset).length) state
  else state.visibleMemos
termination_by rows.length - rawOffset
decreasing_by
  rename_i nonempty _
  rw [batch_length] at nonempty ⊢
  omega

/-- A page of the visible rows: `visibleLimit` of them after the first `visibleOffset`. -/
def listMemoCollectionPage {Row : Type} (chunkSize : Nat) (visible : Row → Bool)
    (visibleOffset visibleLimit : Nat) (rows : List Row) : List Row :=
  scanFrom chunkSize visible visibleOffset visibleLimit rows 0
    { visibleMemos := [], skippedVisible := 0 }

/-! ### Page tokens -/

def DefaultPageSize : Nat := 50

def MaxPageSize : Nat := 1000

def normalizePageSize (pageSize : Int32) : Nat :=
  if pageSize.toInt ≤ 0 then DefaultPageSize
  else if pageSize.toInt > MaxPageSize then MaxPageSize
  else pageSize.toInt.toNat

structure PageToken where
  limit : Int32
  offset : Int32
deriving DecidableEq

/-- `marshalPageToken` and `unmarshalPageToken`: a message of two `int32` fields, written
and read by libraries outside the repository. -/
structure PageTokenCodec where
  marshal : PageToken → Except String String
  unmarshal : String → Except String PageToken

/-- What the paging relies on: a token with a limit is not written as the empty string,
and is read back. -/
def PageTokenCodec.Lawful (codec : PageTokenCodec) : Prop :=
  ∀ token : PageToken, token.limit ≠ 0 →
    ∃ text, codec.marshal token = .ok text ∧ text ≠ "" ∧ codec.unmarshal text = .ok token

/-- Both counters are `int`; the token's fields are `int32`, and the conversion wraps. -/
def getPageToken (codec : PageTokenCodec) (limit offset : Nat) : Except String String :=
  codec.marshal { limit := Int32.ofInt limit, offset := Int32.ofInt offset }

/-! ### The request -/

structure ListMemosRequest where
  pageSize : Int32
  pageOffset : Int32
  pageToken : String

structure ListMemosResponse (Message : Type) where
  memos : List Message
  nextPageToken : String

def serviceChunkSize : Nat := 100

/-- The page a request names: the fields of its token if it has one, else its own. -/
def requestedPage (codec : PageTokenCodec) (request : ListMemosRequest) :
    Except String (Nat × Nat) :=
  if request.pageToken ≠ "" then
    match codec.unmarshal request.pageToken with
    | .error err => .error ("invalid page token: " ++ err)
    | .ok token => .ok (normalizePageSize token.limit, (max token.offset.toInt 0).toNat)
  else .ok (normalizePageSize request.pageSize, (max request.pageOffset.toInt 0).toNat)

/-- The paging of `ListMemos`, over the listing `rows` its query selects. -/
def listMemos {Row Message : Type} (codec : PageTokenCodec) (chunkSize : Nat)
    (visible : Row → Bool) (convert : Row → Option Message) (rows : List Row)
    (request : ListMemosRequest) : Except String (ListMemosResponse Message) := do
  let (requested, offset) ← requestedPage codec request
  let limit := min requested MaxPageSize
  let limitPlusOne := limit + 1
  let memos := listMemoCollectionPage chunkSize visible offset limitPlusOne rows
  if memos.length = limitPlusOne then
    match getPageToken codec limit (offset + limit) with
    | .error err => .error ("failed to get next page token, error: " ++ err)
    | .ok nextPageToken =>
        return { memos := (memos.take limit).filterMap convert, nextPageToken }
  else return { memos := memos.filterMap convert, nextPageToken := "" }

/-- A client that sends a request and then follows the token of each response until there
is none.  `none` is a client that ran out of fuel. -/
def followTokens {Message : Type}
    (list : ListMemosRequest → Except String (ListMemosResponse Message)) :
    Nat → ListMemosRequest → Option (Except String (List (ListMemosResponse Message)))
  | 0, _ => none
  | fuel + 1, request =>
      match list request with
      | .error err => some (.error err)
      | .ok response =>
          if response.nextPageToken = "" then some (.ok [response])
          else
            match followTokens list fuel { request with pageToken := response.nextPageToken } with
            | some (.ok pages) => some (.ok (response :: pages))
            | other => other

/-! ### Listings

Memo ids are the primary key of their table and `int32` values counted up from one, so a
listing of memo rows is short enough for every offset into it to be an `int32` itself.
-/

/-- A memo id as the table hands it out. -/
structure MemoId where
  value : Nat
  positive : 0 < value
  fits : value < 2 ^ 31

structure Listing (Row : Type) where
  rows : List Row
  id : Row → MemoId
  distinct : (rows.map fun row => (id row).value).Nodup

/-! ### The wire format of a token

The two varint fields the message type declares, in base64; a field that is zero is left
out.  Of the reader only what it takes to read such a text back is given: it refuses a
message with any other field.
-/

/-- An `int32` field is written as the varint of its sign extension to 64 bits. -/
def int32Field (tag : UInt8) (v : Int32) : List UInt8 :=
  if v = 0 then [] else tag :: Wire.varint (v.toInt % 2 ^ 64).toNat

def marshalWire (token : PageToken) : Except String String :=
  .ok (String.ofList (Wire.encode (int32Field 8 token.limit ++ int32Field 16 token.offset)))

def readFields (token : PageToken) : Nat → List UInt8 → Option PageToken
  | _, [] => some token
  | 0, _ => none
  | fuel + 1, tag :: rest =>
      match Wire.readVarint rest with
      | none => none
      | some (v, after) =>
          if tag = 8 then readFields { token with limit := Int32.ofInt v } fuel after
          else if tag = 16 then readFields { token with offset := Int32.ofInt v } fuel after
          else none

def unmarshalWire (text : String) : Except String PageToken :=
  match Wire.decode text.toList with
  | none => .error "failed to decode page token"
  | some bytes =>
      match readFields { limit := 0, offset := 0 } bytes.length bytes with
      | none => .error "failed to unmarshal page token"
      | some token => .ok token

def wireCodec : PageTokenCodec where
  marshal := marshalWire
  unmarshal := unmarshalWire

end Memos.Api

/-
The export of a backup.

An administrator is sent an archive with an entry for each memo and for each attachment
that can be read, a record for each attachment that cannot, and a manifest at the end.  The
memos are read page by page after their id, and the attachments of a memo page by page by
their offset.  The names of the entries are made of the names that memos and attachments
have.

The database does not change during the export, and the archive takes all that is written
to it; a request that is cancelled ends in an error and has no manifest.
-/
import Memos.Api.MemoUpdate
import Memos.Lib.Pages
import Memos.Store.MemoList

namespace Memos.Api.Backup

open Store Access

/-! ### Names -/

def isControl (r : Char) : Bool := r.toNat < 0x20 || (0x7F ≤ r.toNat && r.toNat < 0xA0)

/-- `strings.ReplaceAll(value, "..", "_")`. -/
def replaceDots : List Char → List Char
  | '.' :: '.' :: rest => '_' :: replaceDots rest
  | r :: rest => r :: replaceDots rest
  | [] => []

/-- `strings.Trim(value, ". ")`. -/
def trimDots (value : List Char) : List Char :=
  let outer := fun r : Char => r == '.' || r == ' '
  ((value.dropWhile outer).reverse.dropWhile outer).reverse

def backupComponent (value : String) : String :=
  let mapped := value.toList.map fun r =>
    if isControl r || r == '/' || r == '\\' || r == ':' then '_' else r
  let value := (trimDots (replaceDots mapped)).take 120
  if value = [] then "unnamed" else String.ofList value

def zeroPad (width n : Nat) : String :=
  let digits := Nat.toDigits 10 n
  String.ofList (List.replicate (width - digits.length) '0' ++ digits)

/-- The year and the month of a day, counted from the first of January 1970. -/
def civilMonth (day : Int) : Int × Nat :=
  let z := day + 719468
  let era := z / 146097
  let doe := z % 146097
  let yoe := (doe - doe / 1460 + doe / 36524 - doe / 146096) / 365
  let doy := doe - (365 * yoe + yoe / 4 - yoe / 100)
  let mp := (5 * doy + 2) / 153
  let month := if mp < 10 then mp + 3 else mp - 9
  (yoe + era * 400 + if month ≤ 2 then 1 else 0, month.toNat)

/-- `time.Unix(seconds, 0).UTC().Format("2006/01")`. -/
def formatMonth (seconds : Int) : String :=
  let (year, month) := civilMonth (seconds / 86400)
  (if year < 0 then "-" else "") ++ zeroPad 4 year.natAbs ++ "/" ++ zeroPad 2 month

/-! ### The archive -/

structure BackupSkip where
  path : String
  reason : String

structure BackupManifest where
  schemaVersion : String
  memos : Nat := 0
  attachments : Nat := 0
  attachmentMode : String
  database : String := "not included"
  warning : String := ""
  skipped : List BackupSkip := []
  skippedCount : Nat := 0

/-- The times are as they are stored, before they are formatted. -/
structure BackupMemoMetadata where
  uid : String
  creator : String
  created : Int
  updated : Int
  visibility : Visibility
  state : RowStatus
  pinned : Bool
  tags : List String
  parent : Option String
  deleted : Option Int
  attachments : List String

/-- What an entry holds.  The ids are not written: they say what the entry is about. -/
inductive EntryBody where
  | memo (id : Int) (meta' : BackupMemoMetadata) (content : String)
  /-- All of an attachment, or what could be read of it. -/
  | attachment (id : Int) (complete : Bool) (bytes : List UInt8)
  | skip (id : Int) (item : BackupSkip)
  | database (bytes : List UInt8)
  | manifest (manifest : BackupManifest)

structure BackupEntry where
  path : String
  body : EntryBody

/-! ### Reading -/

/-- What a reader yields, and why it stops before the end. -/
structure Stream where
  bytes : List UInt8
  failure : Option String := none

/-- How the database lists the attachments of a memo for a page at an offset: the newest
first, and those of one time in an order that may not be that of the page before. -/
structure AttachmentListing where
  list : Tables → Int → Nat → List AttachmentRow
  perm : ∀ db memoID offset, (list db memoID offset).Perm (listAttachments db memoID)
  newest : ∀ db memoID offset, (list db memoID offset).Pairwise fun a b => b.updatedTs ≤ a.updatedTs

structure BackupStorage where
  listing : AttachmentListing
  schemaVersion : Except String String
  sqlite : Bool
  driver : String
  /-- `os.Open`, of an absolute path or one in the data directory. -/
  openLocal : String → Except String Stream
  getObjectStream : AttachmentRow → Except String Stream
  streamAttachmentBlob : AttachmentRow → Stream

section Export

variable (storage : BackupStorage)

def backupAttachmentReader (a : AttachmentRow) (mode : String) : Except String Stream :=
  if mode = "none" then .error "attachments omitted by export option"
  else
    match a.storageType with
    | .External => .error ("external URL only: " ++ a.reference)
    | .Local => storage.openLocal a.reference
    | .S3 =>
        if mode ≠ "all" then .error "S3 object omitted by local-only option"
        else storage.getObjectStream a
    | .unspecified => .ok (storage.streamAttachmentBlob a)

/-- The archive so far, and the manifest that will be its last entry. -/
structure BackupState where
  entries : List BackupEntry
  manifest : BackupManifest

def BackupState.write (state : BackupState) (entry : BackupEntry) : BackupState :=
  { state with entries := state.entries ++ [entry] }

/-- The manifest keeps the first thousand records, and the archive all. -/
def BackupState.recordSkip (state : BackupState) (id : Int) (path reason : String) : BackupState :=
  let item : BackupSkip := { path, reason }
  let skippedCount := state.manifest.skippedCount + 1
  let skipped := if state.manifest.skipped.length < 1000 then state.manifest.skipped ++ [item]
    else state.manifest.skipped
  { state with manifest := { state.manifest with skippedCount, skipped } }.write
    { path := "skipped/" ++ toString skippedCount ++ ".json", body := .skip id item }

def attachmentPath (memo : MemoRow) (a : AttachmentRow) : String :=
  "attachments/" ++ backupComponent memo.uid ++ "/" ++ backupComponent a.uid ++ "-"
    ++ toString a.id ++ "-" ++ backupComponent a.filename

def exportAttachment (mode : String) (memo : MemoRow) (export' : BackupState × List String)
    (a : AttachmentRow) : BackupState × List String :=
  let (state, named) := export'
  let path := attachmentPath memo a
  if a.storageType = .External then (state, named ++ [a.reference])
  else
    match backupAttachmentReader storage a mode with
    | .error reason => (state.recordSkip a.id path reason, named)
    | .ok stream =>
        let state := state.write
          { path, body := .attachment a.id stream.failure.isNone stream.bytes }
        match stream.failure with
        -- The entry has been begun, and stays in the archive.
        | some reason => (state.recordSkip a.id path reason, named)
        | none =>
            ({ state with
                manifest := { state.manifest with attachments := state.manifest.attachments + 1 } },
              named ++ [path])

def pageSize : Nat := 100

def memoPath (memo : MemoRow) : Option String → String
  | none => "memos/" ++ formatMonth memo.createdTs ++ "/" ++ backupComponent memo.uid ++ ".md"
  | some parent => "comments/" ++ backupComponent parent ++ "/" ++ backupComponent memo.uid ++ ".md"

def memoMetadata (memo : MemoRow) (parent : Option String) (attachments : List String) :
    BackupMemoMetadata :=
  { uid := memo.uid
    creator := "users/" ++ toString memo.creatorID
    created := memo.createdTs
    updated := memo.updatedTs
    visibility := memo.visibility
    state := memo.rowStatus
    pinned := memo.pinned
    tags := memo.payload.tags
    parent := parent.map ("memos/" ++ ·)
    deleted := memo.deletedTs
    attachments }

def exportMemo (db : Tables) (mode : String) (state : BackupState) (memo : MemoRow) : BackupState :=
  let attachments := storage.listing.list db memo.id
  let (state, named) := Pages.byOffset (exportAttachment storage mode memo) pageSize attachments
    ((attachments 0).length + 1) 0 (state, [])
  let parent := parentUID db memo
  let state := state.write
    { path := memoPath memo parent
      body := .memo memo.id (memoMetadata memo parent named) memo.content }
  { state with manifest := { state.manifest with memos := state.manifest.memos + 1 } }

/-- `ListMemos` of all memos, the deleted ones included, by id. -/
def memosByID (db : Tables) : List MemoRow := db.memos.rows.insertionSort fun a b => a.id ≤ b.id

/-- The snapshot of the database, where there is one, or why there is none. -/
def exportDatabase (snapshot : Option (Except String Stream)) (state : BackupState) :
    Except String BackupState :=
  match snapshot with
  | some (.error reason) => .error reason
  | some (.ok stream) =>
      match stream.failure with
      | some reason => .error reason
      | none =>
          .ok ({ state with
            manifest := { state.manifest with
              database := "database/memos.db"
              warning := "Contains sensitive credentials: password hashes, access tokens, instance secrets and configuration. Keep this file private." } }.write
            { path := "database/memos.db", body := .database stream.bytes })
  | none =>
      if storage.sqlite then .ok state
      else .ok { state with
        manifest := { state.manifest with
          database := "Snapshot unavailable for " ++ storage.driver
            ++ "; use mysqldump or pg_dump separately." } }

/-- The archive and the manifest; the ids of memos start above zero. -/
def exportBackup (db : Tables) (mode : String) (snapshot : Option (Except String Stream)) :
    Except String (List BackupEntry × BackupManifest) := do
  let schemaVersion ← storage.schemaVersion
  let state : BackupState := { entries := [], manifest := { schemaVersion, attachmentMode := mode } }
  let state := Pages.byKey (exportMemo storage db mode) pageSize (memosByID db) MemoRow.id
    (db.memos.rows.length + 1) 0 state
  let state ← exportDatabase storage snapshot state
  return (state.entries ++ [{ path := "manifest.json", body := .manifest state.manifest }],
    state.manifest)

end Export

end Memos.Api.Backup

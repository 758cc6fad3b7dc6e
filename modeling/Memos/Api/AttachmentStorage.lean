/-
Where the bytes of an attachment are kept.

An upload is written to the disk or to a bucket before its row is inserted, under a path
made from a template of the administrator.  On the disk a path that is taken gets the id
of the attachment added.  When an attachment or its memo is deleted the row goes first,
and the object after it; what the deletion of a memo, a space or a user leaves behind is
in a queue, which is worked off later.

Each step of this may fail, and what comes after it may never run.  What fails is given
with the action.  Two things stand outside: which file the operating system finds at a
path, and which bucket a storage of the setting stands for.
-/
import Mathlib.Data.List.Infix
import Memos.Base.Names
import Memos.Lib.SlashPath
import Memos.Store.Dependents
import Memos.Store.Storage

namespace Memos.Api.Attachments

open Base Store Store.Storages

abbrev Bytes : Type := List UInt8

abbrev Path : Type := List Char

def IsAbs (path : Path) : Bool := SlashPath.isAbs '/' path

def Join (first second : Path) : Path := SlashPath.join '/' '.' first second

def Ext (path : Path) : Path := SlashPath.ext '/' '.' path

structure S3Object where
  key : Path
  storageId : String
  s3Config : Option StorageS3Config
deriving DecidableEq

structure Attachment where
  id : Int
  uid : List Char
  filename : List Char
  memoID : Option Int
  storageType : AttachmentStorageType
  reference : Path
  s3Object : Option S3Object
deriving DecidableEq

/-- A row of the table, with the bytes that were last saved for it.  These stand in the
row itself when neither the disk nor a bucket holds them. -/
structure Row extends Attachment where
  saved : Bytes
deriving DecidableEq

structure CleanupRow where
  attachment : Attachment
  attemptedTs : Int
deriving DecidableEq

inductive Location (φ β : Type) where
  | file (file : φ)
  | object (bucket : β) (key : Path)
deriving DecidableEq

structure Host (φ β : Type) where
  resolve : Path → φ
  /-- The bucket of a storage id, or of the configuration an old attachment carries. -/
  bucket : String → Option StorageS3Config → β

/-- The data directory is made absolute when the server starts. -/
structure Profile where
  data : Path
  absolute : IsAbs data = true

structure State (φ β : Type) where
  attachments : List Row
  cleanup : List CleanupRow
  trash : List Int
  nextID : Int
  objects : Location φ β → Option Bytes

variable {φ β : Type} [DecidableEq φ] [DecidableEq β] (host : Host φ β) (profile : Profile)

/-! ### The template -/

/-- The time of an upload, in the parts a template can ask for. -/
structure Clock where
  unix : Int
  year : Int
  month : Nat
  day : Nat
  hour : Nat
  minute : Nat
  second : Nat

/-- The key after an opening brace: one to nine small letters and a closing brace. -/
def fileKey (rest : List Char) : Option (List Char) :=
  let letters := rest.takeWhile fun c => 'a' ≤ c && c ≤ 'z'
  if letters ≠ [] ∧ letters.length ≤ 9 ∧ rest[letters.length]? = some '\x7d' then some letters
  else none

/-- `ReplaceAllStringFunc` with `fileKeyPattern`.  The first number counts the characters of
a match that are still to be passed over, the second one the matches so far. -/
def replaceFileKeys (expand : Nat → List Char → List Char) : Nat → Nat → List Char → List Char
  | _, _, [] => []
  | skip + 1, found, _ :: rest => replaceFileKeys expand skip found rest
  | 0, found, c :: rest =>
      match if c = '\x7b' then fileKey rest else none with
      | some key =>
          expand found key ++ replaceFileKeys expand (key.length + 1) (found + 1) rest
      | none => c :: replaceFileKeys expand 0 found rest

def twoDigits (n : Nat) : List Char :=
  if n < 10 then '0' :: (toString n).toList else (toString n).toList

def bracedKey (key : List Char) : List Char := '\x7b' :: key ++ ['\x7d']

def replaceFilenameWithPathTemplate (clock : Clock) (genUUID : Nat → List Char) (path : Path)
    (filename : List Char) : Path :=
  replaceFileKeys (fun found key =>
    if key = "filename".toList then filename
    else if key = "timestamp".toList then (toString clock.unix).toList
    else if key = "year".toList then (toString clock.year).toList
    else if key = "month".toList then twoDigits clock.month
    else if key = "day".toList then twoDigits clock.day
    else if key = "hour".toList then twoDigits clock.hour
    else if key = "minute".toList then twoDigits clock.minute
    else if key = "second".toList then twoDigits clock.second
    else if key = "uuid".toList then genUUID found
    else bracedKey key) 0 0 path

def filenameKey : Path := bracedKey "filename".toList

/-! ### An upload -/

/-- How the writing of an object ends.  A failed one may leave anything behind. -/
inductive Write where
  | refused
  | broken (left : Option Bytes)
  | written
deriving DecidableEq

/-- How the insertion of a row ends.  It may be committed and still report an error, and the
server may stop before it. -/
inductive Insert where
  | stopped
  | refused
  | committedWithError
  | inserted
deriving DecidableEq

/-- How the removal of an object ends.  One that is reported to have failed may be done. -/
inductive Removal where
  | fails
  | doneWithError
  | done
deriving DecidableEq

structure RemovalResult where
  removal : Removal
  acknowledged : Bool
deriving DecidableEq

/-- A request to create an attachment, with the checked and stripped content, and what it
meets. -/
structure Upload where
  setting : InstanceStorageSetting
  uid : List Char
  filename : List Char
  blob : Bytes
  memoID : Option Int
  clock : Clock
  genUUID : Nat → List Char
  /-- What `os.Stat` says when it does not find what is there: it may fail, and it finds
  directories. -/
  stat : Option Bool
  write : Write
  insert : Insert
  lookup : Bool
  removal : RemovalResult

def validateFilename (filename : List Char) : Bool :=
  filename ≠ [] && filename ≠ "..".toList
    && !filename.contains '/' && !filename.contains '\\'
    && filename.head? ≠ some ' ' && filename.getLast? ≠ some ' '
    && filename.head? ≠ some '.' && filename.getLast? ≠ some '.'

def ensureUniqueLocalAttachmentPath (stat : Path → Bool) (path : Path) (uid : List Char) : Path :=
  if !stat path then path
  else
    let base := path.take (path.length - (Ext path).length)
    base ++ '_' :: uid ++ Ext path

def Upload.statFile (upload : Upload) (s : State φ β) (path : Path) : Bool :=
  upload.stat.getD (s.objects (.file (host.resolve path))).isSome

def Upload.templatePath (upload : Upload) : Path :=
  let filepathTemplate :=
    if upload.setting.filepathTemplate ≠ "" then upload.setting.filepathTemplate.toList
    else defaultInstanceFilepathTemplate.toList
  let internalPath :=
    if filenameKey <:+: filepathTemplate then filepathTemplate
    else Join filepathTemplate filenameKey
  let osPath :=
    replaceFilenameWithPathTemplate upload.clock upload.genUUID internalPath upload.filename
  if IsAbs osPath then osPath else Join profile.data osPath

/-- The path on the disk.  It is absolute and is the reference as it is. -/
def Upload.localPath (upload : Upload) (s : State φ β) : Path :=
  ensureUniqueLocalAttachmentPath (upload.statFile host s) (upload.templatePath profile) upload.uid

/-- The key in a bucket.  Nothing makes it unique. -/
def Upload.objectKey (upload : Upload) : Path :=
  let filepathTemplate := upload.setting.filepathTemplate.toList
  let filepathTemplate :=
    if filenameKey <:+: filepathTemplate then filepathTemplate
    else Join filepathTemplate filenameKey
  replaceFilenameWithPathTemplate upload.clock upload.genUUID filepathTemplate upload.filename

def absolutePath (reference : Path) : Path :=
  if IsAbs reference then reference else Join profile.data reference

def Attachment.location (a : Attachment) : Option (Location φ β) :=
  match a.storageType with
  | .Local => some (.file (host.resolve (absolutePath profile a.reference)))
  | .S3 => a.s3Object.map fun o => .object (host.bucket o.storageId o.s3Config) o.key
  | _ => none

/-- The attachment as it is saved, before it has an id.  A bucket takes no empty key. -/
def Upload.attachment (upload : Upload) (s : State φ β) : Option Attachment :=
  let create : Attachment :=
    { id := 0, uid := upload.uid, filename := upload.filename, memoID := upload.memoID,
      storageType := .unspecified, reference := [], s3Object := none }
  match GetDefaultStorage upload.setting with
  | none => none
  | some storage =>
      match storage.type with
      | .STORAGE_TYPE_LOCAL =>
          some { create with
            storageType := .Local, reference := upload.localPath host profile s }
      | .STORAGE_TYPE_S3 =>
          if upload.objectKey = [] then none
          else some { create with
            storageType := .S3, s3Object := some ⟨upload.objectKey, storage.id, none⟩ }
      | _ => some create

def put (s : State φ β) (location : Option (Location φ β)) (value : Option Bytes) : State φ β :=
  match location with
  | none => s
  | some k => { s with objects := Function.update s.objects k value }

def saveAttachmentBlob (s : State φ β) (upload : Upload) : State φ β × Option Attachment :=
  match upload.attachment host profile s with
  | none => (s, none)
  | some create =>
      match create.location host profile with
      | none => (s, some create)
      | some k =>
          match upload.write with
          | .refused => (s, none)
          | .broken left => (put s (some k) left, none)
          | .written => (put s (some k) (some upload.blob), some create)

/-! ### Removing an object -/

def acknowledgeAttachmentCleanup (s : State φ β) (id : Int) : State φ β :=
  { s with cleanup := s.cleanup.filter fun c => c.attachment.id ≠ id }

def deleteAttachmentStorageImpl (s : State φ β) (a : Attachment) (removal : Removal) :
    State φ β × Bool :=
  if a.storageType = .S3 ∧ a.s3Object = none then (s, false)
  else
    match a.location host profile with
    | none => (s, true)
    | some k =>
        match removal with
        | .fails => (s, false)
        | .doneWithError => (put s (some k) none, false)
        | .done => (put s (some k) none, true)

def DeleteAttachmentStorage (s : State φ β) (a : Attachment) (result : RemovalResult) :
    State φ β × Bool :=
  let (s, ok) := deleteAttachmentStorageImpl host profile s a result.removal
  if ok && result.acknowledged then (acknowledgeAttachmentCleanup s a.id, true) else (s, false)

/-- The server may stop on the way: then there are fewer results than attachments. -/
def cleanupDeletedAttachmentStorage (s : State φ β) :
    List Attachment → List RemovalResult → State φ β
  | a :: attachments, result :: results =>
      cleanupDeletedAttachmentStorage (DeleteAttachmentStorage host profile s a result).1
        attachments results
  | _, _ => s

/-- Nothing is acknowledged here, and an error on the disk ends it. -/
def deleteAttachmentStorageSnapshots (s : State φ β) : List Attachment → List Removal → State φ β
  | a :: attachments, removal :: removals =>
      let (s, ok) := deleteAttachmentStorageImpl host profile s a removal
      if !ok && decide (a.storageType = .Local) then s
      else deleteAttachmentStorageSnapshots s attachments removals
  | _, _ => s

/-! ### Creating an attachment -/

def GetAttachmentByUID (s : State φ β) (uid : List Char) : Option Row :=
  s.attachments.find? fun row =>
    decide (row.uid = uid) && row.memoID.all fun memoID => !s.trash.contains memoID

def insertAttachment (s : State φ β) (create : Attachment) (saved : Bytes) :
    Option (State φ β) :=
  if s.attachments.any fun row => decide (row.uid = create.uid) then none
  else some { s with
    attachments := s.attachments ++ [⟨{ create with id := s.nextID }, saved⟩]
    nextID := s.nextID + 1 }

def hasSameManagedStorageObject (left : Option Attachment) (right : Attachment) : Bool :=
  match left with
  | none => false
  | some left =>
      if left.storageType ≠ right.storageType then false
      else
        match left.storageType with
        | .Local => left.reference ≠ [] && left.reference = right.reference
        | .S3 =>
            match left.s3Object, right.s3Object with
            | some leftObject, some rightObject =>
                leftObject.key ≠ [] && leftObject.key = rightObject.key
                  && leftObject.storageId = rightObject.storageId
            | _, _ => false
        | _ => false

/-- What is done about the object when the insertion reported an error. -/
def cleanupSavedAttachmentBlob (s : State φ β) (create : Attachment) (upload : Upload) :
    State φ β :=
  if create.storageType ≠ .Local ∧ create.storageType ≠ .S3 then s
  else if !upload.lookup then s
  else if hasSameManagedStorageObject ((GetAttachmentByUID s create.uid).map Row.toAttachment)
      create then s
  else (DeleteAttachmentStorage host profile s create upload.removal).1

/-- The checks before anything is written; a memo in the trash is not found. -/
def Upload.accepted (upload : Upload) (s : State φ β) : Bool :=
  validateFilename upload.filename && UIDMatcher upload.uid
    && upload.memoID.all fun memoID => !s.trash.contains memoID

def CreateAttachment (s : State φ β) (upload : Upload) : State φ β :=
  if !upload.accepted s then s
  else
    match saveAttachmentBlob host profile s upload with
    | (s, none) => s
    | (s, some create) =>
        match upload.insert with
        | .stopped => s
        | .refused => cleanupSavedAttachmentBlob host profile s create upload
        | .committedWithError =>
            cleanupSavedAttachmentBlob host profile
              ((insertAttachment s create upload.blob).getD s) create upload
        | .inserted =>
            match insertAttachment s create upload.blob with
            | some s => s
            | none => cleanupSavedAttachmentBlob host profile s create upload

/-! ### Deleting attachments -/

/-- `ON CONFLICT(attachment_id) DO NOTHING`. -/
def EnqueueAttachmentCleanup (s : State φ β) (attachments : List Attachment) : State φ β :=
  attachments.foldl (fun s a =>
    if s.cleanup.any fun c => decide (c.attachment.id = a.id) then s
    else { s with cleanup := s.cleanup ++ [⟨a, 0⟩] }) s

def targets (s : State φ β) (deleted : Row → Bool) : List Attachment :=
  (s.attachments.filter deleted).map Row.toAttachment

def deleteRows (s : State φ β) (deleted : Row → Bool) : State φ β :=
  { s with attachments := s.attachments.filter fun row => !deleted row }

def deleteRowsTx (s : State φ β) (deleted : Row → Bool) : State φ β :=
  deleteRows (EnqueueAttachmentCleanup s (targets s deleted)) deleted

def hasID (ids : List Int) (row : Row) : Bool := ids.contains row.id

def ofMemos (memoIDs : List Int) (row : Row) : Bool :=
  row.memoID.any fun memoID => memoIDs.contains memoID

/-- `DeleteAttachment`, `BatchDeleteAttachments` and the attachments that the update of a
memo removes. -/
def deleteAttachments (s : State φ β) (ids : List Int) (results : List RemovalResult) :
    State φ β :=
  cleanupDeletedAttachmentStorage host profile (deleteRows s (hasID ids)) (targets s (hasID ids))
    results

/-- The deletion of memos for good, one by one, from the trash or with their space. -/
def deleteMemos (s : State φ β) (memoIDs : List Int) (results : List RemovalResult) : State φ β :=
  cleanupDeletedAttachmentStorage host profile (deleteRowsTx s (ofMemos memoIDs))
    (targets s (ofMemos memoIDs)) results

/-- The deletion of a user, with the attachments that go with the account. -/
def deleteUser (s : State φ β) (ids : List Int) (results : List RemovalResult) : State φ β :=
  cleanupDeletedAttachmentStorage host profile (deleteRowsTx s (hasID ids)) (targets s (hasID ids))
    results

def storeDeleteMemo (s : State φ β) (memoID : Int) (removals : List Removal) : State φ β :=
  deleteAttachmentStorageSnapshots host profile (deleteRowsTx s (ofMemos [memoID]))
    (targets s (ofMemos [memoID])) removals

def storeDeleteAttachments (s : State φ β) (ids : List Int) (removals : List Removal) :
    State φ β :=
  deleteAttachmentStorageSnapshots host profile (deleteRows s (hasID ids)) (targets s (hasID ids))
    removals

/-- `DeleteAttachment` of the store.  Here the object goes before the row. -/
def storeDeleteAttachment (s : State φ β) (id : Int) (result : RemovalResult)
    (rowDeleted : Bool) : State φ β :=
  match (targets s (hasID [id])).head? with
  | none => s
  | some a =>
      let (s, ok) := DeleteAttachmentStorage host profile s a result
      if !ok && decide (a.storageType = .Local) then s
      else if rowDeleted then deleteRows s (hasID [id])
      else s

/-! ### The queue -/

structure RetryResult extends RemovalResult where
  counted : Bool
  stamp : Option Int

def reused (s : State φ β) (a : Attachment) : Nat :=
  s.attachments.countP fun row => decide (row.reference = a.reference) && decide (row.id ≠ a.id)

def stampAttempt (s : State φ β) (id now : Int) : State φ β :=
  { s with
    cleanup := s.cleanup.map fun c =>
      if c.attachment.id = id then { c with attemptedTs := now } else c }

def retryCleanup (s : State φ β) (a : Attachment) (result : RetryResult) : State φ β :=
  if !result.counted then s
  else if 0 < reused s a then
    if result.acknowledged then acknowledgeAttachmentCleanup s a.id else s
  else
    let (s, ok) := DeleteAttachmentStorage host profile s a result.toRemovalResult
    if ok then s
    else
      match result.stamp with
      | none => s
      | some now => stampAttempt s a.id now

def retryItems (s : State φ β) : List CleanupRow → List RetryResult → State φ β
  | c :: batch, result :: results =>
      retryItems (retryCleanup host profile s c.attachment result) batch results
  | _, _ => s

def attemptedBefore (c d : CleanupRow) : Bool :=
  decide (c.attemptedTs < d.attemptedTs)
    || decide (c.attemptedTs = d.attemptedTs) && decide (c.attachment.id ≤ d.attachment.id)

def cleanupBatch (s : State φ β) : List CleanupRow :=
  (s.cleanup.mergeSort attemptedBefore).take 100

def RetryAttachmentCleanup (s : State φ β) (results : List RetryResult) : State φ β :=
  retryItems host profile s (cleanupBatch s) results

/-! ### The actions -/

inductive Action where
  | create (upload : Upload)
  | deleteAttachments (ids : List Int) (results : List RemovalResult)
  | deleteMemos (memoIDs : List Int) (results : List RemovalResult)
  | deleteUser (ids : List Int) (results : List RemovalResult)
  | storeDeleteMemo (memoID : Int) (removals : List Removal)
  | storeDeleteAttachments (ids : List Int) (removals : List Removal)
  | storeDeleteAttachment (id : Int) (result : RemovalResult) (rowDeleted : Bool)
  | retryCleanup (results : List RetryResult)
  | setTrash (memoIDs : List Int)
  | updateRow (id : Int) (memoID : Option Int) (filename : List Char)

def updateRow (s : State φ β) (id : Int) (memoID : Option Int) (filename : List Char) :
    State φ β :=
  { s with
    attachments := s.attachments.map fun row =>
      if row.id = id then { row with memoID, filename } else row }

def step (s : State φ β) : Action → Option (State φ β)
  | .create upload => some (CreateAttachment host profile s upload)
  | .deleteAttachments ids results => some (deleteAttachments host profile s ids results)
  | .deleteMemos memoIDs results => some (deleteMemos host profile s memoIDs results)
  | .deleteUser ids results => some (deleteUser host profile s ids results)
  | .storeDeleteMemo memoID removals => some (storeDeleteMemo host profile s memoID removals)
  | .storeDeleteAttachments ids removals =>
      some (storeDeleteAttachments host profile s ids removals)
  | .storeDeleteAttachment id result rowDeleted =>
      some (storeDeleteAttachment host profile s id result rowDeleted)
  | .retryCleanup results => some (RetryAttachmentCleanup host profile s results)
  | .setTrash memoIDs => some { s with trash := memoIDs }
  | .updateRow id memoID filename => some (updateRow s id memoID filename)

end Memos.Api.Attachments

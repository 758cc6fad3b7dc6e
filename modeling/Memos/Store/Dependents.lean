/-
The tables whose rows belong to a memo or to a user.

Their rows name a memo or a user by id, and nothing in the database keeps the two
together: the driver runs without foreign keys and the schema has no triggers.  What
happens to such a row when the memo or the user goes is for the operations to say.
-/
import Memos.Store.Tables

namespace Memos.Store

inductive MemoRelationType where
  | Reference
  | Comment
  | unrecognised
deriving DecidableEq

structure MemoRelationRow where
  memoID : Int
  relatedMemoID : Int
  type : MemoRelationType
deriving DecidableEq

def MemoRelationRow.schema : Keyed.Schema MemoRelationRow MemoRelationRow where
  key := id
  clash r s := r = s
  check _ := true
  clash_of_key r s h := by simpa using h

inductive AttachmentStorageType where
  | unspecified
  | Local
  | S3
  | External
deriving DecidableEq

/-- The payload is kept as its text. -/
structure AttachmentRow where
  id : Int
  uid : String
  creatorID : Int
  createdTs : Int
  updatedTs : Int
  filename : String
  blob : Option (List UInt8)
  type : String
  size : Int
  memoID : Option Int
  storageType : AttachmentStorageType
  reference : String
  payload : String

def AttachmentRow.schema : Keyed.Schema Int AttachmentRow where
  key := AttachmentRow.id
  clash r s := r.id = s.id || r.uid = s.uid
  check _ := true
  clash_of_key r s h := by simp [h]

/-- An attachment row with the schema's defaults in the other columns. -/
def AttachmentRow.withDefaults (id : Int) (uid : String) (creatorID : Int) (memoID : Option Int)
    (storageType : AttachmentStorageType) : AttachmentRow :=
  { id, uid, creatorID, createdTs := 0, updatedTs := 0, filename := "", blob := none, type := "",
    size := 0, memoID, storageType, reference := "", payload := "{}" }

/-- An entry of the queue of stored objects that are to be removed. -/
structure AttachmentCleanupRow where
  attachmentID : Int
  snapshot : AttachmentRow
  attemptedTs : Int

def AttachmentCleanupRow.schema : Keyed.Schema Int AttachmentCleanupRow where
  key := AttachmentCleanupRow.attachmentID
  clash r s := r.attachmentID = s.attachmentID
  check _ := true
  clash_of_key r s h := by simp [h]

structure ReactionRow where
  id : Int
  createdTs : Int
  creatorID : Int
  memoID : Int
  reactionType : String

def ReactionRow.schema : Keyed.Schema Int ReactionRow where
  key := ReactionRow.id
  clash r s := r.id = s.id
    || (r.creatorID = s.creatorID && r.memoID = s.memoID && r.reactionType = s.reactionType)
  check _ := true
  clash_of_key r s h := by simp [h]

structure PollVoteRow where
  id : Int
  memoID : Int
  userID : Int
  optionID : String
  deviceID : String
  createdTs : Int

def PollVoteRow.schema : Keyed.Schema Int PollVoteRow where
  key := PollVoteRow.id
  clash r s := r.id = s.id || (r.memoID = s.memoID && r.userID = s.userID
    && r.deviceID = s.deviceID && r.optionID = s.optionID)
  check _ := true
  clash_of_key r s h := by simp [h]

structure MemoBookmarkRow where
  userID : Int
  memoID : Int
  createdTs : Int

def MemoBookmarkRow.key (r : MemoBookmarkRow) : Int × Int := (r.userID, r.memoID)

def MemoBookmarkRow.schema : Keyed.Schema (Int × Int) MemoBookmarkRow where
  key := MemoBookmarkRow.key
  clash r s := r.key = s.key
  check _ := true
  clash_of_key r s h := by simp [h]

/-- What a record of the moderation is about. -/
inductive ModerationTargetType where
  | Article
  | Comment
  | User
  | unrecognised
deriving DecidableEq

structure ModerationTarget where
  type : ModerationTargetType
  id : Int
deriving DecidableEq

/-- The memo a record is about, if it is about one. -/
def ModerationTarget.memoID (target : ModerationTarget) : Option Int :=
  if target.type = .Article || target.type = .Comment then some target.id else none

structure ModerationReportRow where
  id : Int
  createdTs : Int
  creatorID : Int
  target : ModerationTarget
  reason : String

def ModerationReportRow.schema : Keyed.Schema Int ModerationReportRow where
  key := ModerationReportRow.id
  clash r s := r.id = s.id || (r.creatorID = s.creatorID && r.target = s.target)
  check _ := true
  clash_of_key r s h := by simp [h]

structure ModerationQuarantineRow where
  id : Int
  createdTs : Int
  target : ModerationTarget
  reportCount : Int
  reason : String

def ModerationQuarantineRow.schema : Keyed.Schema Int ModerationQuarantineRow where
  key := ModerationQuarantineRow.id
  clash r s := r.id = s.id || r.target = s.target
  check _ := true
  clash_of_key r s h := by simp [h]

structure ModerationReportAdjustmentRow where
  target : ModerationTarget
  adjustment : Int
  updatedTs : Int

def ModerationReportAdjustmentRow.schema :
    Keyed.Schema ModerationTarget ModerationReportAdjustmentRow where
  key := ModerationReportAdjustmentRow.target
  clash r s := r.target = s.target
  check _ := true
  clash_of_key r s h := by simp [h]

structure InboxRow where
  id : Int
  createdTs : Int
  senderID : Int
  receiverID : Int
  status : String
  message : String

def InboxRow.schema : Keyed.Schema Int InboxRow where
  key := InboxRow.id
  clash r s := r.id = s.id
  check _ := true
  clash_of_key r s h := by simp [h]

structure UserIdentityRow where
  id : Int
  userID : Int
  provider : String
  externUID : String
  createdTs : Int
  updatedTs : Int

def UserIdentityRow.schema : Keyed.Schema Int UserIdentityRow where
  key := UserIdentityRow.id
  clash r s := r.id = s.id || (r.provider = s.provider && r.externUID = s.externUID)
    || (r.userID = s.userID && r.provider = s.provider)
  check _ := true
  clash_of_key r s h := by simp [h]

structure UserSettingRow where
  userID : Int
  key : String
  value : String

def UserSettingRow.keys (r : UserSettingRow) : Int × String := (r.userID, r.key)

def UserSettingRow.schema : Keyed.Schema (Int × String) UserSettingRow where
  key := UserSettingRow.keys
  clash r s := r.keys = s.keys
  check _ := true
  clash_of_key r s h := by simp [h]

/-- A memo that was imported, by what identifies it at its source. -/
structure MemoImportRow where
  userID : Int
  sourceHash : String
  sourceIDHash : String
  source : String
  sourceID : String
  memoID : Int
  jobID : String
  createdTs : Int

def MemoImportRow.keys (r : MemoImportRow) : Int × String × String :=
  (r.userID, r.sourceHash, r.sourceIDHash)

def MemoImportRow.schema : Keyed.Schema (Int × String × String) MemoImportRow where
  key := MemoImportRow.keys
  clash r s := r.keys = s.keys
  check _ := true
  clash_of_key r s h := by simp [h]

/-- The database: the tables of the state, and the ones above. -/
structure Tables extends State where
  relations : Keyed.Table MemoRelationRow.schema
  attachments : Keyed.Table AttachmentRow.schema
  attachmentCleanup : Keyed.Table AttachmentCleanupRow.schema
  reactions : Keyed.Table ReactionRow.schema
  pollVotes : Keyed.Table PollVoteRow.schema
  bookmarks : Keyed.Table MemoBookmarkRow.schema
  reports : Keyed.Table ModerationReportRow.schema
  quarantine : Keyed.Table ModerationQuarantineRow.schema
  reportAdjustments : Keyed.Table ModerationReportAdjustmentRow.schema
  inbox : Keyed.Table InboxRow.schema
  identities : Keyed.Table UserIdentityRow.schema
  settings : Keyed.Table UserSettingRow.schema
  imports : Keyed.Table MemoImportRow.schema
  /-- The largest id the memo table ever handed out. -/
  memoSequence : Int

end Memos.Store

/-
The attachments a request asks a memo to have.

A request lists attachments by name, in the order in which the memo shall show them.  The
parts of a motion photo belong together: they share the id of a group, are listed next to
each other, and when the memo has several of them it keeps or loses them all.

The order is kept in the timestamps of the attachments, the first one being the newest.
The clock is read again for each of them.
-/
import Memos.Api.MemoUpdate
import Memos.Lib.Firsts

namespace Memos.Api

open Store Access

structure MotionMedia where
  groupId : String

/-- `AttachmentPayload`, of which the request reads the motion media. -/
structure AttachmentPayload where
  motionMedia : Option MotionMedia

/-- `protojson.Unmarshal`, for the payload of an attachment. -/
abbrev PayloadReader := String → Except String AttachmentPayload

section Groups

variable (decode : PayloadReader)

def getAttachmentMotionMedia (attachment : AttachmentRow) : Option MotionMedia :=
  (decode attachment.payload).toOption.bind AttachmentPayload.motionMedia

def groupOf (attachment : AttachmentRow) : Option String :=
  (getAttachmentMotionMedia decode attachment).bind fun motion =>
    if motion.groupId = "" then none else some motion.groupId

def groupMembers (attachments : List AttachmentRow) (groupID : String) : List AttachmentRow :=
  attachments.filter fun a => decide (groupOf decode a = some groupID)

def isMultiMemberMotionGroup (attachments : List AttachmentRow) : Bool :=
  if attachments.length < 2 then false
  else attachments.all fun attachment => (groupOf decode attachment).isSome

/-- The requested names are those of the requested members of the group. -/
def allGroupMembersRequested (group requestedGroup : List AttachmentRow) : Bool :=
  if group.isEmpty then false
  else group.all fun attachment => requestedGroup.any fun r => decide (r.uid = attachment.uid)

/-- The last loop, with the groups and the uids it is done with. -/
def normalizeFrom (current requested : List AttachmentRow) (appendedGroups : List String)
    (appendedAttachments : List String) : List AttachmentRow → List AttachmentRow
  | [] => []
  | attachment :: rest =>
      match groupOf decode attachment with
      | none =>
          if attachment.uid ∈ appendedAttachments then
            normalizeFrom current requested appendedGroups appendedAttachments rest
          else
            attachment :: normalizeFrom current requested appendedGroups
              (attachment.uid :: appendedAttachments) rest
      | some groupID =>
          if groupID ∈ appendedGroups then
            normalizeFrom current requested appendedGroups appendedAttachments rest
          else if isMultiMemberMotionGroup decode (groupMembers decode current groupID)
              && !allGroupMembersRequested (groupMembers decode current groupID)
                (groupMembers decode requested groupID) then
            normalizeFrom current requested (groupID :: appendedGroups) appendedAttachments rest
          else
            let members := Firsts.firsts AttachmentRow.uid appendedAttachments
              (groupMembers decode requested groupID)
            members ++ normalizeFrom current requested (groupID :: appendedGroups)
              (members.map AttachmentRow.uid ++ appendedAttachments) rest

end Groups

/-! ### The request -/

def attachmentListed (db : Tables) (attachment : AttachmentRow) : Bool :=
  attachment.memoID.all fun id => (db.memos.find? id).all fun memo => decide (memo.deletedTs = none)

def getAttachment (decode : PayloadReader) (db : Tables) (uid : String) :
    Except String (Option AttachmentRow) := do
  let rows := db.attachments.select fun a => decide (a.uid = uid) && attachmentListed db a
  rows.forM fun a => (decode a.payload).map fun _ => ()
  return rows.head?

section Service

variable (service : APIV1Service) (decode : PayloadReader)

def APIV1Service.requestedAttachment (db : Tables) (memo : MemoRow) (current : List AttachmentRow) :
    Option String → Except Status AttachmentRow
  | none => .error ⟨.InvalidArgument, "attachment is required"⟩
  | some name => do
      let attachmentUID ← refused .InvalidArgument "invalid attachment name: "
        (service.nameToken name "attachments/")
      let found ← refused .Internal "failed to get attachment: "
        (getAttachment decode db attachmentUID)
      let attachment ← orRefuse found .NotFound ("attachment not found: " ++ attachmentUID)
      let alreadyInTarget := current.any fun a => decide (a.id = attachment.id)
      refuseIf (decide (attachment.creatorID ≠ memo.creatorID) && !alreadyInTarget) .NotFound
        ("attachment not found: " ++ attachmentUID)
      refuseIf (attachment.memoID.isSome && !alreadyInTarget) .FailedPrecondition
        ("attachment " ++ attachmentUID ++ " is already bound to another memo")
      return attachment

def APIV1Service.requestedAttachments (db : Tables) (memo : MemoRow)
    (current : List AttachmentRow) : List (Option String) → Except Status (List AttachmentRow)
  | [] => .ok []
  | request :: requests => do
      let attachment ← service.requestedAttachment decode db memo current request
      let attachments ← APIV1Service.requestedAttachments db memo current requests
      return attachment :: attachments

def APIV1Service.normalizeMemoAttachmentRequest (db : Tables) (memo : MemoRow)
    (current : List AttachmentRow) (requests : List (Option String)) :
    Except Status (List AttachmentRow) := do
  let requested ← service.requestedAttachments decode db memo current requests
  return normalizeFrom decode current requested [] [] requested

end Service

/-! ### Bindings -/

/-- The bindings of a prepared request.  The clock reads `clock i` for the `i`-th of them,
counted from the last attachment. -/
def buildMemoAttachmentMutationBindingsAt (clock : Nat → Int) (prepared : PreparedMemoAttachments) :
    List MemoAttachmentBinding :=
  (prepared.normalized.reverse.zipIdx.map fun (a, index) =>
    { id := a.id
      uid := a.uid
      updatedTs := clock index + index
      wasBoundToMemo := prepared.current.any fun current => decide (current.id = a.id) }).insertionSort
    fun a b => a.id ≤ b.id

end Memos.Api

/-
The pictures and videos of a memo, as they are shown.

The still and the video of a live photo are two attachments of one group, and are shown as one
item.  Any other group is shown one attachment after the other, where its first member stands.
A motion photo has its video inside.  At the end one item is kept for each identity, which is
the name of the attachment or, for a live photo, the id of the group.
-/
import Memos.Lib.Firsts
import Mathlib.Data.List.AList

namespace Memos.Web

/-! ### Attachments -/

inductive MotionMediaFamily where
  | unspecified | appleLivePhoto | androidMotionPhoto
  deriving DecidableEq

inductive MotionMediaRole where
  | unspecified | still | video | container
  deriving DecidableEq

structure MotionMedia where
  family : MotionMediaFamily
  role : MotionMediaRole
  groupId : String
  presentationTimestampUs : Int
  hasEmbeddedVideo : Bool
  deriving DecidableEq

structure Attachment where
  name : String
  filename : String
  externalLink : String
  type : String
  motionMedia : Option MotionMedia
  deriving DecidableEq

def getAttachmentMotionGroupId (attachment : Attachment) : Option String :=
  (attachment.motionMedia.map MotionMedia.groupId).filter (· ≠ "")

def isAppleLivePhotoStill (attachment : Attachment) : Bool :=
  attachment.motionMedia.any fun motion => motion.family = .appleLivePhoto ∧ motion.role = .still

def isAppleLivePhotoVideo (attachment : Attachment) : Bool :=
  attachment.motionMedia.any fun motion => motion.family = .appleLivePhoto ∧ motion.role = .video

def isAndroidMotionContainer (attachment : Attachment) : Bool :=
  attachment.motionMedia.any fun motion =>
    motion.family = .androidMotionPhoto ∧ motion.role = .container ∧ motion.hasEmbeddedVideo

/-- The types that matter here. -/
inductive AttachmentType where
  | image | video | other
  deriving DecidableEq

def isPSD (t : String) : Bool :=
  t = "image/vnd.adobe.photoshop" || t = "image/x-photoshop" || t = "image/photoshop"

def isImage (t : String) : Bool := t.startsWith "image/" && !isPSD t

def getAttachmentType (attachment : Attachment) : AttachmentType :=
  if isImage attachment.type then .image
  else if attachment.type.startsWith "video" then .video
  else .other

/-- The page, with what becomes of a link that carries a share token when a key is set in it. -/
structure Page where
  origin : String
  setShareParam : String → String → Option String

def getAttachmentUrl (page : Page) (attachment : Attachment) : String :=
  if attachment.externalLink ≠ "" then attachment.externalLink
  else page.origin ++ "/file/" ++ attachment.name ++ "/" ++ attachment.filename

def withShareTokenParam (page : Page) (externalLink key : String) : Option String :=
  if externalLink = "" then none else page.setShareParam externalLink key

def getAttachmentThumbnailUrl (page : Page) (attachment : Attachment) : String :=
  (withShareTokenParam page attachment.externalLink "thumbnail").getD
    (page.origin ++ "/file/" ++ attachment.name ++ "/" ++ attachment.filename ++ "?thumbnail=true")

def getAttachmentMotionClipUrl (page : Page) (attachment : Attachment) : String :=
  (withShareTokenParam page attachment.externalLink "motion").getD
    (page.origin ++ "/file/" ++ attachment.name ++ "/" ++ attachment.filename ++ "?motion=true")

/-! ### Items -/

inductive MediaKind where
  | image | video | motion
  deriving DecidableEq

structure PreviewMediaItem where
  id : String
  kind : MediaKind
  filename : String
  sourceUrl : Option String
  posterUrl : String
  motionUrl : Option String
  presentationTimestampUs : Option Int
  attachments : List Attachment

structure AttachmentVisualItem where
  id : String
  kind : MediaKind
  filename : String
  posterUrl : String
  sourceUrl : String
  attachmentNames : List String
  attachments : List Attachment
  previewItem : PreviewMediaItem
  mimeType : String

section Builders

variable (page : Page)

def buildSingleAttachmentItem (attachment : Attachment) : AttachmentVisualItem :=
  let attachmentType := getAttachmentType attachment
  let sourceUrl := getAttachmentUrl page attachment
  let posterUrl :=
    if attachmentType = .image then getAttachmentThumbnailUrl page attachment else sourceUrl
  let kind := if attachmentType = .video then MediaKind.video else .image
  { id := attachment.name
    kind
    filename := attachment.filename
    posterUrl
    sourceUrl
    attachmentNames := [attachment.name]
    attachments := [attachment]
    previewItem :=
      { id := attachment.name, kind, sourceUrl := some sourceUrl, posterUrl, motionUrl := none
        presentationTimestampUs := none, filename := attachment.filename
        attachments := [attachment] }
    mimeType := attachment.type }

def buildAppleMotionItem (still video : Attachment) : AttachmentVisualItem :=
  let sourceUrl := getAttachmentUrl page video
  let posterUrl := getAttachmentThumbnailUrl page still
  let id := (getAttachmentMotionGroupId still).getD still.name
  { id
    kind := .motion
    filename := still.filename
    posterUrl
    sourceUrl
    attachmentNames := [still.name, video.name]
    attachments := [still, video]
    previewItem :=
      { id, kind := .motion, posterUrl, motionUrl := some sourceUrl, sourceUrl := none
        presentationTimestampUs := none, filename := still.filename, attachments := [still, video] }
    mimeType := still.type }

def buildAndroidMotionItem (attachment : Attachment) : AttachmentVisualItem :=
  { id := attachment.name
    kind := .motion
    filename := attachment.filename
    posterUrl := getAttachmentThumbnailUrl page attachment
    sourceUrl := getAttachmentMotionClipUrl page attachment
    attachmentNames := [attachment.name]
    attachments := [attachment]
    previewItem :=
      { id := attachment.name, kind := .motion
        motionUrl := some (getAttachmentMotionClipUrl page attachment)
        posterUrl := getAttachmentThumbnailUrl page attachment, sourceUrl := none
        filename := attachment.filename
        presentationTimestampUs := attachment.motionMedia.map MotionMedia.presentationTimestampUs
        attachments := [attachment] }
    mimeType := attachment.type }

def dedupeVisualItems (items : List AttachmentVisualItem) : List AttachmentVisualItem :=
  Firsts.firsts AttachmentVisualItem.id [] items

/-! ### All of them -/

abbrev Groups := AList fun _ : String => List Attachment

def groupOf (groups : Groups) (groupId : String) : List Attachment :=
  (groups.lookup groupId).getD []

def addToGroup (groups : Groups) (attachment : Attachment) : Groups :=
  match getAttachmentMotionGroupId attachment with
  | none => groups
  | some groupId => groups.insert groupId (groupOf groups groupId ++ [attachment])

def attachmentsByGroup (attachments : List Attachment) : Groups := attachments.foldl addToGroup ∅

structure Building where
  consumedGroups : List String
  items : List AttachmentVisualItem

/-- The members of a group, the one that was met first. -/
def singleItems (attachment : Attachment) (group : List Attachment) : List AttachmentVisualItem :=
  buildSingleAttachmentItem page attachment
    :: (group.filter fun member => member.name ≠ attachment.name).map (buildSingleAttachmentItem page)

/-- One turn of the loop. -/
def buildItem (groups : Groups) (s : Building) (attachment : Attachment) : Building :=
  if isAndroidMotionContainer attachment then
    { s with items := s.items ++ [buildAndroidMotionItem page attachment] }
  else
    match getAttachmentMotionGroupId attachment with
    | none => { s with items := s.items ++ [buildSingleAttachmentItem page attachment] }
    | some groupId =>
        if groupId ∈ s.consumedGroups then s
        else
          let group := groupOf groups groupId
          let items :=
            match group.find? isAppleLivePhotoStill, group.find? isAppleLivePhotoVideo with
            | some still, some video =>
                if group.length = 2 then [buildAppleMotionItem page still video]
                else singleItems page attachment group
            | _, _ => singleItems page attachment group
          { consumedGroups := groupId :: s.consumedGroups, items := s.items ++ items }

def buildAttachmentVisualItems (attachments : List Attachment) : List AttachmentVisualItem :=
  dedupeVisualItems
    (attachments.foldl (buildItem page (attachmentsByGroup attachments)) ⟨[], []⟩).items

end Builders

end Memos.Web

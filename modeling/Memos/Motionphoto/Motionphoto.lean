/-
The video inside a motion photo.

A motion photo is a JPEG with an MP4 appended to it.  Its metadata may say how far from the
end the video starts; else the start is searched for, from the end of the bytes.
-/
import Memos.Lib.Find

namespace Memos.Motionphoto

open Find

structure Detection where
  VideoStart : Int
  PresentationTimestampUs : Int
  deriving DecidableEq, Repr

def ascii (word : String) : List UInt8 := word.toList.map fun c => UInt8.ofNat c.toNat

/-! ### The expressions of the metadata

A text is read as UTF-8.  Bytes that are not become runes no expression asks for, and a
byte of ASCII is always a rune of its own, so an expression can be followed on the bytes.
Besides its two cases the letter s has the long s, of the two bytes C5 BF.
-/

def foldLetter (c : Char) : List UInt8 → Option (List UInt8)
  | [] => none
  | b :: text =>
    if b.toNat = c.toLower.toNat ∨ b.toNat = c.toUpper.toNat then some text
    else if c.toLower = 's' ∧ b = 0xC5 ∧ text.head? = some 0xBF then some text.tail
    else none

/-- What follows the word, in any case of its letters. -/
def foldWord (word : String) (text : List UInt8) : Option (List UInt8) :=
  word.toList.foldlM (fun text c => foldLetter c text) text

/-- `["'=:\s>]` -/
def isSeparator (b : UInt8) : Bool :=
  b = 0x22 || b = 0x27 || b = 0x3D || b = 0x3A || b = 0x3E
    || b = 0x09 || b = 0x0A || b = 0x0C || b = 0x0D || b = 0x20

def separators (text : List UInt8) : Option (List UInt8) :=
  if (text.takeWhile isSeparator).isEmpty then none else some (text.dropWhile isSeparator)

def isDigit (b : UInt8) : Bool := 0x30 ≤ b && b ≤ 0x39

def digits (text : List UInt8) : Option Nat :=
  let run := text.takeWhile isDigit
  if run.isEmpty then none else some (run.foldl (fun n b => n * 10 + (b.toNat - 0x30)) 0)

/-- The leftmost match, of one of the words with the separators and what comes after them. -/
def findSubmatch {β : Type} (words : List String) (value : List UInt8 → Option β) :
    List UInt8 → Option β
  | [] => none
  | b :: text =>
    match words.findSome? fun word => (foldWord word (b :: text)).bind separators |>.bind value with
    | some found => some found
    | none => findSubmatch words value text

def motionPhotoMarkerRegex (text : List UInt8) : Bool :=
  (findSubmatch ["Camera:MotionPhoto", "GCamera:MotionPhoto", "MicroVideo"]
    (fun rest => if rest.head? = some 0x31 then some () else none) text).isSome

def presentationRegex : List UInt8 → Option Int :=
  findSubmatch
    ["Camera:MotionPhotoPresentationTimestampUs", "GCamera:MotionPhotoPresentationTimestampUs"]
    fun rest =>
      if rest.head? = some 0x2D then (digits rest.tail).map fun n => -(n : Int)
      else (digits rest).map fun n => (n : Int)

def microVideoOffsetRegex : List UInt8 → Option Nat :=
  findSubmatch ["Camera:MicroVideoOffset", "GCamera:MicroVideoOffset"] digits

def maxMetadataScanBytes : Nat := 256 * 1024

def maxInt : Nat := 0x7FFFFFFFFFFFFFFF

/-! ### The video -/

def ftyp : List UInt8 := ascii "ftyp"

/-- `binary.BigEndian.Uint32` -/
def uint32 (blob : List UInt8) : Nat := blob.foldl (fun n b => n * 256 + b.toNat) 0

def looksLikeMP4 (blob : List UInt8) : Bool :=
  if blob.length < 12 || (blob.drop 4).take 4 ≠ ftyp then false
  else
    let size := uint32 (blob.take 4)
    size = 1 || 8 ≤ size

theorem ftyp_ne_nil : ftyp ≠ [] := by decide

theorem ftyp_length : ftyp.length = 4 := rfl

theorem lastIndex_ftyp_le {blob : List UInt8} {searchFrom index : Nat}
    (found : lastIndex ftyp (blob.take searchFrom) = some index) : index + 4 ≤ searchFrom := by
  have le := (lastIndex_standsAt found).length_le ftyp_ne_nil
  rw [ftyp_length, List.length_take] at le
  omega

/-- The loop of `findEmbeddedMP4Start`, over the bytes before `searchFrom`. -/
def searchEmbedded (blob : List UInt8) (searchFrom : Nat) : Int :=
  if searchFrom > 8 then
    match h : lastIndex ftyp (blob.take searchFrom) with
    | none => -1
    | some index =>
      if index < 4 then -1
      else if looksLikeMP4 (blob.drop (index - 4)) then ((index - 4 : Nat) : Int)
      else searchEmbedded blob (index - 1)
  else -1
termination_by searchFrom
decreasing_by
  have := lastIndex_ftyp_le h
  omega

def findEmbeddedMP4Start (blob : List UInt8) : Int := searchEmbedded blob blob.length

/-- The start that the metadata give, when a video is there. -/
def microVideoStart (blob text : List UInt8) : Option Nat :=
  match microVideoOffsetRegex text with
  | none => none
  | some offset =>
    if offset ≤ maxInt ∧ offset > 0 ∧ offset < blob.length then
      let start := blob.length - offset
      if looksLikeMP4 (blob.drop start) then some start else none
    else none

def detectVideoStart (blob text : List UInt8) : Int :=
  match microVideoStart blob text with
  | some start => start
  | none => findEmbeddedMP4Start blob

def parsePresentationTimestampUs (text : List UInt8) : Int :=
  match presentationRegex text with
  | none => 0
  | some value => if -(maxInt : Int) - 1 ≤ value ∧ value ≤ maxInt then value else 0

def metadata (blob : List UInt8) : List UInt8 := blob.take maxMetadataScanBytes

def DetectJPEG (blob : List UInt8) : Option Detection :=
  if blob.length < 16 ∨ ¬[0xFF, 0xD8] <+: blob then none
  else
    let text := metadata blob
    if !motionPhotoMarkerRegex text then none
    else
      let videoStart := detectVideoStart blob text
      if videoStart < 0 ∨ videoStart ≥ blob.length then none
      else some { VideoStart := videoStart, PresentationTimestampUs := parsePresentationTimestampUs text }

def ExtractVideo (blob : List UInt8) : Option (List UInt8 × Detection) :=
  match DetectJPEG blob with
  | none => none
  | some detection =>
    let videoBlob := blob.drop detection.VideoStart.toNat
    if looksLikeMP4 videoBlob then some (videoBlob, detection) else none

end Memos.Motionphoto

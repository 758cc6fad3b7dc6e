/-
Removing the references to attachments from the body of a memo.

The images and video links of the body are found in its Markdown tree, with the part of the
text that each of them is.  Those of the removed attachments are cut out of the text, the
last one first, and a line of which nothing is left goes with them.

The tree and the classification of a destination are what the parser and the browser make.
-/
import Memos.Lib.Find
import Memos.Web.QuestionBank
import Mathlib.Data.List.Sort

namespace Memos.Web

open Utf16 Find

/-! ### The tree -/

inductive MdType where
  | definition (identifier url : Units)
  | html (value : Units)
  | text (value : Units)
  | image (url : Units)
  | imageReference (identifier : Units)
  | link (url : Units)
  | linkReference (identifier : Units)
  | other

/-- A node, from one offset of the source to another when its position is known. -/
inductive MdNode where
  | node (type : MdType) (position : Option (Nat × Nat)) (children : List MdNode)

namespace MdNode

def type : MdNode → MdType
  | node type _ _ => type

def position : MdNode → Option (Nat × Nat)
  | node _ position _ => position

def children : MdNode → List MdNode
  | node _ _ children => children

mutual

/-- The nodes in the order of `visit`. -/
def visit : MdNode → List MdNode
  | node type position children => node type position children :: visitAll children

def visitAll : List MdNode → List MdNode
  | [] => []
  | child :: children => visit child ++ visitAll children

end

end MdNode

/-! ### The index of a source -/

inductive ManagedImageURL where
  | unmanaged
  | invalid
  | managed (uid : Units)

inductive ManagedKind where
  | image
  | video
  deriving DecidableEq

structure ManagedImageNode where
  uid : Units
  kind : ManagedKind
  start : Option Nat
  stop : Option Nat

structure ManagedImageIndex where
  nodes : List ManagedImageNode
  uids : List Units
  invalidReferences : List Units

def EMPTY_INDEX : ManagedImageIndex := ⟨[], [], []⟩

def MANAGED_ATTACHMENT_PATH_PREFIX : Units := units "/file/attachments/"

def includes (source word : Units) : Bool := (index word source).isSome

def textOf : MdNode → Units
  | .node (.text value) _ _ => value
  | _ => []

def isVideoLabel (children : List MdNode) : Bool :=
  (units "video:").isPrefixOf (children.flatMap textOf)

section Index

variable (classify : Units → ManagedImageURL) (normalizeIdentifier : Units → Units)

/-- The first definition of an identifier counts. -/
def definitionsOf (tree : MdNode) : List (Units × Units) :=
  tree.visit.filterMap fun node =>
    match node.type with
    | .definition identifier url => some (normalizeIdentifier identifier, url)
    | _ => none

/-- What a node refers to, and as what. -/
def destinationOf (definitions : List (Units × Units)) (node : MdNode) : Option (Units × ManagedKind) :=
  match node.type with
  | .image url => some (url, .image)
  | .imageReference identifier =>
    (definitions.lookup (normalizeIdentifier identifier)).map (·, .image)
  | .link url => if isVideoLabel node.children then some (url, .video) else none
  | .linkReference identifier =>
    if isVideoLabel node.children then
      (definitions.lookup (normalizeIdentifier identifier)).map (·, .video)
    else none
  | _ => none

/-- A reference to a destination, at the position of its node. -/
def addReference (index : List ManagedImageNode × List Units) (position : Option (Nat × Nat))
    (destination : Units) (kind : ManagedKind) : List ManagedImageNode × List Units :=
  if destination = [] then index
  else
    match classify destination with
    | .invalid => if kind = .image then (index.1, index.2 ++ [destination]) else index
    | .unmanaged => index
    | .managed uid => (index.1 ++ [⟨uid, kind, position.map Prod.fst, position.map Prod.snd⟩], index.2)

def visitNode (definitions : List (Units × Units)) (index : List ManagedImageNode × List Units)
    (node : MdNode) : List ManagedImageNode × List Units :=
  match node.type with
  | .html raw =>
    if includes raw MANAGED_ATTACHMENT_PATH_PREFIX then (index.1, index.2 ++ [raw]) else index
  | _ =>
    match destinationOf normalizeIdentifier definitions node with
    | none => index
    | some (destination, kind) => addReference classify index node.position destination kind

def buildManagedImageIndex (tree : MdNode) : ManagedImageIndex :=
  let definitions := definitionsOf normalizeIdentifier tree
  let (nodes, invalidReferences) :=
    tree.visit.foldl (visitNode classify normalizeIdentifier definitions) ([], [])
  ⟨nodes, (nodes.map (·.uid)).dedup, invalidReferences⟩

def managedImageIndex (source : Units) (tree : MdNode) : ManagedImageIndex :=
  if includes source MANAGED_ATTACHMENT_PATH_PREFIX then
    buildManagedImageIndex classify normalizeIdentifier tree
  else EMPTY_INDEX

end Index

/-! ### Removing -/

def newline : UInt16 := 10

/-- `text.lastIndexOf("\n", start - 1) + 1`; before the text the first unit is looked at. -/
def lineStartOf (text : Units) (start : Nat) : Nat :=
  match lastIndex [newline] (text.take (start - 1 + 1)) with
  | none => 0
  | some i => i + 1

/-- `text.indexOf("\n", stop)` -/
def nextNewlineOf (text : Units) (stop : Nat) : Option Nat :=
  (index [newline] (text.drop stop)).map (stop + ·)

def slice (text : Units) (start stop : Nat) : Units := (text.take stop).drop start

def isBlank (text : Units) : Bool := jsTrim text = []

/-- The text without the range, or without its whole line when nothing else is on it. -/
def removeRange (result : Units) (range : Nat × Nat) : Units :=
  let lineStart := lineStartOf result range.1
  let nextNewline := nextNewlineOf result range.2
  let lineEnd := nextNewline.getD result.length
  let before := slice result lineStart range.1
  let after := slice result range.2 lineEnd
  let removeWholeLine := isBlank before && isBlank after
  let start := if removeWholeLine then lineStart else range.1
  let stop :=
    if removeWholeLine then
      match nextNewline with
      | some i => i + 1
      | none => lineEnd
    else range.2
  let stop :=
    if removeWholeLine && [newline, newline].isSuffixOf (result.take start) &&
      [newline].isPrefixOf (result.drop stop) then stop + 1 else stop
  result.take start ++ result.drop stop

def rangesOf (nodes : List ManagedImageNode) (uids : List Units) : List (Nat × Nat) :=
  nodes.filterMap fun node =>
    if uids.contains node.uid then
      match node.start, node.stop with
      | some start, some stop => some (start, stop)
      | _, _ => none
    else none

def sortRanges (ranges : List (Nat × Nat)) : List (Nat × Nat) :=
  ranges.insertionSort fun left right => right.1 ≤ left.1

def removeRanges (source : Units) (ranges : List (Nat × Nat)) : Units :=
  (sortRanges ranges).foldl removeRange source

section Remove

variable (classify : Units → ManagedImageURL) (normalizeIdentifier : Units → Units)

def removeManagedAttachmentReferences (source : Units) (tree : MdNode) (uids : List Units) : Units :=
  removeRanges source (rangesOf (managedImageIndex classify normalizeIdentifier source tree).nodes uids)

end Remove

end Memos.Web

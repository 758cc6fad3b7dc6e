/-
The tags of a memo.

The walk over a document collects the tags of its text, each after all its ancestors, and
a tag in a link or an image counts for nothing.  What is stored in the payload is that
list without what it repeats.

Only the tags of the walk are modelled, and of a node only what it is to them.
-/
import Memos.Lib.Firsts
import Memos.Markdown.Tag
import Mathlib.Data.List.Sort

namespace Memos.Markdown

/-- A tag of some run of text: what a `TagNode` holds. -/
structure ExtractedTag (t : Tables) where
  value : List Char
  lexed : ∃ source, ∃ m ∈ findTagMatches t source, m.value = value

inductive NodeKind (t : Tables) where
  | tag (tag : ExtractedTag t)
  | link
  | image
  | other

inductive Node (t : Tables) where
  | mk (kind : NodeKind t) (children : List (Node t))

variable {t : Tables}

def NodeKind.isLinkOrImage : NodeKind t → Bool
  | .link | .image => true
  | .tag _ | .other => false

def indexSlash (s : List Char) : Option Nat := s.findIdx? fun c => decide (c = '/')

theorem indexSlash_lt {s : List Char} {separator : Nat} (h : indexSlash s = some separator) :
    separator < s.length :=
  (List.findIdx?_eq_some_iff_getElem.mp h).1

/-- The loop of `appendTagHierarchy`, with the value before and from its offset. -/
def appendTagsFrom (tags : List (List Char)) (before after : List Char) : List (List Char) :=
  match h : indexSlash after with
  | none => tags ++ [before ++ after]
  | some separator =>
      have := indexSlash_lt h
      appendTagsFrom (tags ++ [before ++ after.take separator])
        (before ++ after.take (separator + 1)) (after.drop (separator + 1))
termination_by after.length
decreasing_by
  rw [List.length_drop]
  omega

def appendTagHierarchy (tags : List (List Char)) (value : List Char) : List (List Char) :=
  appendTagsFrom tags [] value

/-- What the walk adds on entering a node. -/
def NodeKind.addTags (inLinkOrImage : Bool) (tags : List (List Char)) : NodeKind t → List (List Char)
  | .tag found => if inLinkOrImage then tags else appendTagHierarchy tags found.value
  | .link | .image | .other => tags

mutual

/-- `gast.Walk`, with whether the node is in a link or an image. -/
def Node.collectTags (inLinkOrImage : Bool) (tags : List (List Char)) : Node t → List (List Char)
  | .mk kind children =>
      collectChildren (inLinkOrImage || kind.isLinkOrImage) (kind.addTags inLinkOrImage tags) children

def collectChildren (inLinkOrImage : Bool) (tags : List (List Char)) :
    List (Node t) → List (List Char)
  | [] => tags
  | child :: children =>
      collectChildren inLinkOrImage (child.collectTags inLinkOrImage tags) children

end

def uniquePreserveCase (strs : List (List Char)) : List (List Char) := Firsts.firsts id [] strs

def extractTags (root : Node t) : List (List Char) :=
  uniquePreserveCase (root.collectTags false [])

def NodeKind.memoTag (inLinkOrImage : Bool) : NodeKind t → List (ExtractedTag t)
  | .tag found => if inLinkOrImage then [] else [found]
  | .link | .image | .other => []

mutual

/-- The tags of a document that are in no link and no image, in order. -/
def Node.memoTags (inLinkOrImage : Bool) : Node t → List (ExtractedTag t)
  | .mk kind children =>
      kind.memoTag inLinkOrImage ++ memoTagsOfChildren (inLinkOrImage || kind.isLinkOrImage) children

def memoTagsOfChildren (inLinkOrImage : Bool) : List (Node t) → List (ExtractedTag t)
  | [] => []
  | child :: children =>
      child.memoTags inLinkOrImage ++ memoTagsOfChildren inLinkOrImage children

end

def storedTags (tags : List (ExtractedTag t)) : List (List Char) :=
  uniquePreserveCase (tags.foldl (fun tags tag => appendTagHierarchy tags tag.value) [])

def distinctStrings (values : List (List Char)) : List (List Char) := uniquePreserveCase values

/-- The condition that `sets.equivalent` becomes: each value is in the list, and the list
has as many elements as there are values. -/
def setsEquivalent (tags values : List (List Char)) : Bool :=
  (distinctStrings values).all tags.contains
    && decide (tags.length = (distinctStrings values).length)

end Memos.Markdown

/-
Renaming a tag.

The source ranges of the tags that have the old value are collected and sorted, and the
text between them is copied, with an introducer and the new value in place of each.

The content is one literal run here, whose tags are the matches of the scanner.
-/

namespace Memos.Markdown

open Utf8

def slice (content : List Char) (start stop : Nat) : List Char :=
  takeBytes (stop - start) (dropBytes start content)

structure SourceRange where
  start : Nat
  stop : Nat

def tagRanges (t : Tables) (content oldTag : List Char) : List SourceRange :=
  ((findTagMatches t content).filter fun m => decide (m.value = oldTag ∧ m.start < m.stop)).map
    fun m => ⟨m.start, m.stop⟩

def replaceRanges (content newTag : List Char) (cursor : Nat) : List SourceRange → List Char
  | [] => dropBytes cursor content
  | range :: ranges =>
      slice content cursor range.start ++ '#' :: newTag ++
        replaceRanges content newTag range.stop ranges

def RenameTag (t : Tables) (content oldTag newTag : List Char) : List Char :=
  let ranges := (tagRanges t content oldTag).insertionSort fun left right => left.start ≤ right.start
  replaceRanges content newTag 0 ranges

/-! ### A run by its tags -/

inductive Segment where
  | text (source : List Char)
  | tag (source value : List Char)

def segmentsFrom (content : List Char) (cursor : Nat) : List TagMatch → List Segment
  | [] => [.text (dropBytes cursor content)]
  | m :: found =>
      .text (slice content cursor m.start) :: .tag (slice content m.start m.stop) m.value ::
        segmentsFrom content m.stop found

def segments (t : Tables) (content : List Char) : List Segment :=
  segmentsFrom content 0 (findTagMatches t content)

def Segment.rename (oldTag newTag : List Char) : Segment → Segment
  | .text source => .text source
  | .tag source value => if value = oldTag then .tag ('#' :: newTag) newTag else .tag source value

end Memos.Markdown

/-
The ids of the headings in a memo, and its outline.

An id that a heading has when the tree comes is linked to, and stays where it is first.  Every
other heading gets a slug, with a number behind it if the slug is the id of a heading already.
The outline reads the ids off the tree.
-/
import Memos.Lib.FirstFree
import Memos.Web.QuestionBank

namespace Memos.Web

open FirstFree Utf16

/-- A list of nodes: the first, and those after it.  An id that is no string is none. -/
inductive Hast where
  | nil
  | text (value : Units) (rest : Hast)
  | element (tagName : String) (className : List String) (id : Option Units) (children rest : Hast)
  | other (rest : Hast)

def FALLBACK_HEADING_SLUG : Units := units "heading"

def isHeadingElement (tagName : String) : Bool :=
  ["h1", "h2", "h3", "h4", "h5", "h6"].contains tagName

/-- What the children of an element add to its text. -/
def getHeadingText : Hast → Units
  | .nil => []
  | .text value rest => value ++ getHeadingText rest
  | .element _ _ _ children rest => getHeadingText children ++ getHeadingText rest
  | .other rest => getHeadingText rest

def elementId (tagName : String) (id : Option Units) : List Units :=
  if isHeadingElement tagName then [id.getD []] else []

/-- What each heading has for an id, in the order of a visit. -/
def headingIds : Hast → List Units
  | .nil => []
  | .element tagName _ id children rest =>
      elementId tagName id ++ (headingIds children ++ headingIds rest)
  | .text _ rest | .other rest => headingIds rest

def existingIds (tree : Hast) : List Units := (headingIds tree).filter (· ≠ [])

structure HeadingIdState where
  usedSlugs : List Units
  claimedExistingIds : List Units

def slugAt (baseSlug : Units) (suffix : Nat) : Units :=
  if suffix = 0 then baseSlug else baseSlug ++ units ("-" ++ toString suffix)

def makeUniqueSlug (usedSlugs : List Units) (baseSlug : Units) : Option (List Units × Units) :=
  (firstFree (slugAt baseSlug) usedSlugs (usedSlugs.length + 1) 0).map fun slug =>
    (slug :: usedSlugs, slug)

/-- What the second visit does to an element. -/
def assignId (slugify : Units → Units) (s : HeadingIdState) (tagName : String) (id : Option Units)
    (children : Hast) : Option (HeadingIdState × Option Units) :=
  if isHeadingElement tagName = false then some (s, id)
  else
    let existingId := id.getD []
    if existingId ≠ [] ∧ existingId ∉ s.claimedExistingIds then
      some ({ s with claimedExistingIds := existingId :: s.claimedExistingIds }, some existingId)
    else
      let slug := slugify (getHeadingText children)
      let baseSlug :=
        if existingId ≠ [] then existingId else if slug ≠ [] then slug else FALLBACK_HEADING_SLUG
      (makeUniqueSlug s.usedSlugs baseSlug).map fun (usedSlugs, slug) =>
        ({ s with usedSlugs := usedSlugs }, some slug)

def assignIds (slugify : Units → Units) (s : HeadingIdState) : Hast → Option (HeadingIdState × Hast)
  | .nil => some (s, .nil)
  | .text value rest => (assignIds slugify s rest).map fun (s, rest) => (s, .text value rest)
  | .other rest => (assignIds slugify s rest).map fun (s, rest) => (s, .other rest)
  | .element tagName className id children rest => do
      let (s, id) ← assignId slugify s tagName id children
      let (s, children) ← assignIds slugify s children
      let (s, rest) ← assignIds slugify s rest
      some (s, .element tagName className id children rest)

def rehypeHeadingId (slugify : Units → Units) (tree : Hast) : Option Hast :=
  (assignIds slugify ⟨existingIds tree, []⟩ tree).map (·.2)

structure HeadingItem where
  text : Units
  level : Nat
  slug : Units

/-- `Number(node.tagName.slice(1))` of a heading. -/
def headingLevel (tagName : String) : Nat := ["h1", "h2", "h3", "h4", "h5", "h6"].idxOf tagName + 1

def isVisuallyHidden (className : List String) : Bool := className.contains "sr-only"

def extractHeadings : Hast → List HeadingItem
  | .nil => []
  | .element tagName className id children rest =>
      let text := getHeadingText children
      let slug := id.getD []
      (if isHeadingElement tagName ∧ isVisuallyHidden className = false ∧ headingLevel tagName ≤ 4
          ∧ text ≠ [] ∧ slug ≠ [] then [⟨text, headingLevel tagName, slug⟩] else [])
        ++ (extractHeadings children ++ extractHeadings rest)
  | .text _ rest | .other rest => extractHeadings rest

end Memos.Web

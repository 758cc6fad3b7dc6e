/-
The snippet of a memo.

A walk over the document collects its text, without code blocks and with a space between
blocks, and it stops as soon as twice the wanted length is collected, counted in bytes.
What was collected is then cut, counted in code points, at the last white space.

Of a node only what the walk reads of it is modelled; the text of a node is given as it
stands in the source.
-/
import Memos.Api.ContentModeration
import Memos.Lib.TreeWalk

namespace Memos.Markdown.Snippet

open Api (trimSpace)
open TreeWalk
open Utf8

inductive Node where
  | CodeBlock
  | FencedCodeBlock
  | Paragraph
  | Heading
  | ListItem
  | TableCell
  | TableRow
  | TableHeader
  | Text (segment : List Char) (SoftLineBreak : Bool)
  | AutoLink (URL : List Char)
  | TagNode (Source Tag : List Char)
  | GFMEmailNode (Address : List Char)
  | InlineMathNode (Source : List Char)
  | BlockMathNode (Source : List Char)
  | other

def Node.isCodeBlock : Node → Bool
  | .CodeBlock | .FencedCodeBlock => true
  | _ => false

def Node.isBlock : Node → Bool
  | .Paragraph | .Heading | .ListItem | .TableCell | .TableRow | .TableHeader => true
  | _ => false

def Node.text : Node → List Char
  | .Text segment SoftLineBreak => segment ++ if SoftLineBreak then [' '] else []
  | .AutoLink URL => URL
  | .TagNode Source Tag => if 0 < Source.length then Source else '#' :: Tag
  | .GFMEmailNode Address => Address
  | .InlineMathNode Source => Source
  | .BlockMathNode Source => Source
  | _ => []

def Node.skipsChildren : Node → Bool
  | .AutoLink _ | .BlockMathNode _ => true
  | _ => false

structure State where
  buf : List Char
  lastNodeWasBlock : Bool

def State.start : State := ⟨[], false⟩

def State.write (s : State) (n : Node) : State :=
  let space : List Char :=
    if n.isBlock && (0 < s.buf.length && s.lastNodeWasBlock) then [' '] else []
  { buf := s.buf ++ space ++ n.text, lastNodeWasBlock := false }

/-- The walker, with when the collected bytes are too many. -/
def visit (full : Nat → Bool) (s : State) (e : Event Node) : State × WalkStatus :=
  if e.entering then
    if e.value.isCodeBlock then (s, .skipChildren)
    else if e.value.skipsChildren then (s.write e.value, .skipChildren)
    else if full (byteLength (s.write e.value).buf) then (s.write e.value, .stop)
    else (s.write e.value, .proceed)
  else ({ s with lastNodeWasBlock := s.lastNodeWasBlock || e.value.isBlock }, .proceed)

def isBreak (c : Char) : Bool := c = ' ' || c = '\t' || c = '\n' || c = '\r'

/-- `strings.LastIndexAny`, counted in code points. -/
def lastBreak : List Char → Option Nat
  | [] => none
  | c :: s =>
      match lastBreak s with
      | some i => some (i + 1)
      | none => if isBreak c then some 0 else none

def ellipsis : List Char := " ...".toList

/-- The code points before the last break, unless it comes first. -/
def cutAtWord (truncated : List Char) : List Char :=
  match lastBreak truncated with
  | none => truncated
  | some lastSpace => if 0 < lastSpace then truncated.take lastSpace else truncated

/-- A negative length is out of range for the slice, and there is no result. -/
def truncateAtWord (s : List Char) (maxLength : Int64) : Option (List Char) :=
  if (s.length : Int) ≤ maxLength.toInt then some s
  else if maxLength.toInt < 0 then none
  else some (cutAtWord (s.take maxLength.toInt.toNat) ++ ellipsis)

def GenerateSnippet (root : RoseTree Node) (maxLength : Int64) : Option (List Char) :=
  let full := fun bytes : Nat => decide ((maxLength * 2).toInt < bytes)
  let snippet := (walk (visit full) .start root).1.buf
  if maxLength.toInt < byteLength snippet then (truncateAtWord snippet maxLength).map trimSpace
  else some (trimSpace snippet)

/-- All the text that the walk collects when it goes to the end. -/
def plainText (root : RoseTree Node) : List Char :=
  (walk (visit fun _ => false) .start root).1.buf

end Memos.Markdown.Snippet

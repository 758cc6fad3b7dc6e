/-
Finding the users that a text mentions.

The server scans the bytes of a run of literal text and the web client its code units.  Both
look at ASCII alone, and both are one scanner; only the server passes over Markdown escapes.
-/
import Memos.Base.Names
import Memos.Lib.Utf

namespace Memos.Markdown

open Base

@[ext] structure MentionMatch (α : Type) where
  start : Nat
  stop : Nat
  username : List α
deriving DecidableEq

section Scanner

variable {α : Type} (code : α → Nat) (escapesAt : List α → Nat → Bool) (source : List α)

def hasMentionLeftBoundary (runHasLeftBoundary : Bool) (pos : Nat) : Bool :=
  if pos = 0 then runHasLeftBoundary
  else !(source[pos - 1]?).any fun previous => IsUsernameCharacter (code previous)

def findMentionMatchesFrom (runHasLeftBoundary : Bool) (pos : Nat) : List (MentionMatch α) :=
  match _inside : source[pos]? with
  | none => []
  | some char =>
      if escapesAt source pos then findMentionMatchesFrom runHasLeftBoundary (pos + 2)
      else if code char ≠ '@'.toNat || !hasMentionLeftBoundary code source runHasLeftBoundary pos then
        findMentionMatchesFrom runHasLeftBoundary (pos + 1)
      else
        let username := (source.drop (pos + 1)).takeWhile fun char => IsUsernameCharacter (code char)
        let stop := pos + 1 + username.length
        let next := if stop = pos + 1 then pos + 1 else stop
        if IsValidUsername (username.map code) then
          ⟨pos, stop, username⟩ :: findMentionMatchesFrom runHasLeftBoundary next
        else findMentionMatchesFrom runHasLeftBoundary next
termination_by source.length - pos
decreasing_by
  all_goals
    have := (List.getElem?_eq_some_iff.mp _inside).1
    grind

end Scanner

/-- `util.IsPunct` of the Markdown library, the table of ASCII punctuation. -/
structure PunctTable where
  isPunct : UInt8 → Bool
  punctuation : ∀ char, isPunct char = true ↔ ASCIIPunctuation char.toNat

def PunctTable.escapesAt (table : PunctTable) (source : List UInt8) (pos : Nat) : Bool :=
  (source[pos]?).any (fun char => char.toNat = '\\'.toNat) && (source[pos + 1]?).any table.isPunct

def FindMentionMatches (table : PunctTable) (source : List UInt8) (runHasLeftBoundary : Bool) :
    List (MentionMatch UInt8) :=
  findMentionMatchesFrom UInt8.toNat table.escapesAt source runHasLeftBoundary 0

/-- The web client has no test for escapes. -/
def noEscapes {α : Type} (_source : List α) (_pos : Nat) : Bool := false

def findMentionMatches (source : Utf16.Units) (runHasLeftBoundary : Bool) : List (MentionMatch UInt16) :=
  findMentionMatchesFrom UInt16.toNat noEscapes source runHasLeftBoundary 0

end Memos.Markdown

/-
Finding extended GFM email autolinks in a run of literal text.

The server and the web client do the same on the bytes and on the code units of a run.  They
first decode escapes and character references, and remember for each unit of the decoded text
where its spelling starts and ends in the source.  The emails are found in the decoded text.
-/
import Memos.Markdown.Mention
import Mathlib.Data.List.DropRight

namespace Memos.Markdown.GfmEmail

open Base

/-! ### Character references -/

def isASCIIHexDigit (char : Nat) : Bool :=
  isASCIIDigit char || 'a'.toNat ≤ char && char ≤ 'f'.toNat || 'A'.toNat ≤ char && char ≤ 'F'.toNat

section References

variable {α : Type} (code : α → Nat)

def standsAt (source : List α) (index : Nat) (char : Char) : Bool :=
  source[index]?.any fun unit => code unit = char.toNat

theorem lt_of_standsAt {code : α → Nat} {source : List α} {index : Nat} {char : Char}
    (is : standsAt code source index char = true) : index < source.length := by
  obtain ⟨unit, there, -⟩ := Option.any_eq_true _ _ |>.mp is
  exact (List.getElem?_eq_some_iff.mp there).1

/-- The length of a reference that has between one and `limit` digits from `start` on. -/
def digitsReferenceLength (isDigit : α → Bool) (source : List α) (start limit : Nat) : Nat :=
  let digits := ((source.drop start).take limit).takeWhile isDigit
  if digits ≠ [] && standsAt code source (start + digits.length) ';' then start + digits.length + 1
  else 0

/-- The length of a numeric reference; the number sign is known to be there. -/
def numericReferenceLength (source : List α) : Nat :=
  if standsAt code source 2 'x' || standsAt code source 2 'X' then
    digitsReferenceLength code (fun unit => isASCIIHexDigit (code unit)) source 3 6
  else digitsReferenceLength code (fun unit => isASCIIDigit (code unit)) source 2 7

end References

structure MarkdownUtil extends PunctTable where
  isAlphaNumeric : UInt8 → Bool
  lookUpHTML5EntityByName : List UInt8 → Bool
  /-- `util.ResolveNumericReferences`, and then `util.ResolveEntityNames`. -/
  resolveReferences : List UInt8 → List UInt8

def characterReferenceLength (util : MarkdownUtil) (source : List UInt8) : Nat :=
  if source.length < 3 || !standsAt UInt8.toNat source 0 '&' then 0
  else if standsAt UInt8.toNat source 1 '#' then numericReferenceLength UInt8.toNat source
  else
    let length := digitsReferenceLength UInt8.toNat util.isAlphaNumeric source 1 32
    if 0 < length && util.lookUpHTML5EntityByName ((source.take (length - 1)).drop 1) then length else 0

/-- The length of what `CHARACTER_REFERENCE_AT_START` matches. -/
def characterReferenceAtStart (source : Utf16.Units) : Nat :=
  if !standsAt UInt16.toNat source 0 '&' then 0
  else if standsAt UInt16.toNat source 1 '#' then numericReferenceLength UInt16.toNat source
  else digitsReferenceLength UInt16.toNat (fun unit => isASCIIAlphanumeric unit.toNat) source 1 31

/-- Where a reference from `cursor` on ends, and what it decodes to; `decodeString` is the
function of the Markdown library. -/
def decodedMarkdownCharacterReferenceAt (decodeString : Utf16.Units → Utf16.Units)
    (source : Utf16.Units) (cursor upperBound : Nat) : Option (Nat × Utf16.Units) :=
  if !standsAt UInt16.toNat source cursor '&' then none
  else
    let window := (source.take (min upperBound (cursor + 35))).drop cursor
    let length := characterReferenceAtStart window
    if length = 0 then none
    else
      let spelling := window.take length
      let value := decodeString spelling
      if value = spelling then none else some (cursor + length, value)

/-! ### The decoded text -/

/-- A unit of the decoded text, and where its spelling starts and ends. -/
structure ProjectedUnit (α : Type) where
  value : α
  start : Nat
  stop : Nat
deriving DecidableEq

structure Projector (α : Type) where
  code : α → Nat
  isPunct : α → Bool
  /-- Where the reference from an offset on ends, and its decoded text. -/
  referenceAt : List α → Nat → Nat → Option (Nat × List α)
  /-- The character at an offset is two units that are read as one. -/
  isPair : List α → Nat → Bool
  forward : ∀ {source cursor upperBound stop decoded},
    referenceAt source cursor upperBound = some (stop, decoded) → cursor < stop

section Projection

variable {α : Type} (p : Projector α) (source : List α)

def Projector.escapesAt (upperBound cursor : Nat) : Bool :=
  standsAt p.code source cursor '\\' && cursor + 1 < upperBound && source[cursor + 1]?.any p.isPunct

/-- The units between two offsets, spelled by what is between two others. -/
def projectUnits (first last start stop : Nat) : List (ProjectedUnit α) :=
  ((source.take last).drop first).map fun unit => ⟨unit, start, stop⟩

/-- The loop of the projection, from `cursor` on. -/
def Projector.project (upperBound cursor : Nat) : List (ProjectedUnit α) :=
  if cursor < upperBound then
    if p.escapesAt source upperBound cursor then
      projectUnits source (cursor + 1) (cursor + 2) cursor (cursor + 2)
        ++ Projector.project upperBound (cursor + 2)
    else
      match _found : p.referenceAt source cursor upperBound with
      | some (stop, decoded) =>
          decoded.map (fun unit => ⟨unit, cursor, stop⟩) ++ Projector.project upperBound stop
      | none =>
          let stop := if p.isPair source cursor then cursor + 2 else cursor + 1
          projectUnits source cursor stop cursor stop ++ Projector.project upperBound stop
  else []
termination_by upperBound - cursor
decreasing_by
  · omega
  · have := p.forward _found
    omega
  · grind

end Projection

/-- `projectGFMEmailText` -/
def serverProjector (util : MarkdownUtil) : Projector UInt8 where
  code := UInt8.toNat
  isPunct := util.isPunct
  referenceAt source cursor _ :=
    let referenceLength := characterReferenceLength util (source.drop cursor)
    if 0 < referenceLength then
      some (cursor + referenceLength, util.resolveReferences ((source.drop cursor).take referenceLength))
    else none
  isPair _ _ := false
  forward found := by grind

/-- `projectEmailText` -/
def webProjector (decodeString : Utf16.Units → Utf16.Units) : Projector UInt16 where
  code := UInt16.toNat
  isPunct unit := decide (ASCIIPunctuation unit.toNat)
  referenceAt := decodedMarkdownCharacterReferenceAt decodeString
  isPair source cursor := source[cursor]?.any Utf16.isHigh && source[cursor + 1]?.any Utf16.isLow
  forward found := by
    unfold decodedMarkdownCharacterReferenceAt at found
    grind

/-! ### Emails -/

section Matches

variable {α : Type} (code : α → Nat)

/-- `isGFMEmailLocalByte` and `isLocalChar` -/
def isLocalChar (char : Nat) : Bool :=
  isASCIIAlphanumeric char || char = '.'.toNat || char = '_'.toNat || char = '+'.toNat || char = '-'.toNat

/-- The characters of a label: `[A-Za-z0-9_-]`. -/
def isLabelChar (char : Nat) : Bool := isASCIIAlphanumeric char || char = '_'.toNat || char = '-'.toNat

/-- The length of what `[A-Za-z0-9_-]*[A-Za-z0-9]` matches: the run up to its last letter or digit. -/
def lastLabelLength (source : List α) : Option Nat :=
  let label := (source.takeWhile fun unit => isLabelChar (code unit)).rdropWhile fun unit =>
    !isASCIIAlphanumeric (code unit)
  if label = [] then none else some label.length

/-- The length of what `(?:[A-Za-z0-9_-]+\.)+[A-Za-z0-9_-]*[A-Za-z0-9]` matches.  As many labels
with a dot are tried first as there are, and then one less each time. -/
def labelsLength (source : List α) : Option Nat :=
  let label := source.takeWhile fun unit => isLabelChar (code unit)
  if inside : label ≠ [] ∧ standsAt code source label.length '.' then
    let rest := source.drop (label.length + 1)
    ((labelsLength rest).or (lastLabelLength code rest)).map (label.length + 1 + ·)
  else none
termination_by source.length
decreasing_by
  have := lt_of_standsAt inside.2
  rw [List.length_drop]
  omega

/-- The length of what the pattern of the domain matches at the start. -/
def domainLength (source : List α) : Option Nat :=
  if standsAt code source 0 '@' then (labelsLength code (source.drop 1)).map (1 + ·) else none

def localStart (source : List α) (lowerBound : Nat) : Nat → Nat
  | 0 => 0
  | start + 1 =>
      if lowerBound < start + 1 && source[start]?.any fun unit => isLocalChar (code unit) then
        localStart source lowerBound start
      else start + 1

/-- `matchProjectedGFMEmailAt` and `matchEmailAt`, at an introducer between the bounds. -/
def matchEmailAt (source : List α) (introducer lowerBound upperBound : Nat) : Option (Nat × Nat) :=
  let start := localStart code source lowerBound introducer
  if start = introducer then none
  else
    match domainLength code ((source.take upperBound).drop introducer) with
    | none => none
    | some length =>
        let stop := introducer + length
        if stop < upperBound && (standsAt code source stop '-' || standsAt code source stop '_') then none
        else some (start, stop)

theorem domainLength_pos {source : List α} {length : Nat}
    (found : domainLength code source = some length) : 0 < length := by
  unfold domainLength at found
  split at found
  next =>
    obtain ⟨rest, -, rfl⟩ := Option.map_eq_some_iff.mp found
    omega
  next => cases found

theorem lt_of_matchEmailAt {source : List α} {introducer lowerBound upperBound start stop : Nat}
    (found : matchEmailAt code source introducer lowerBound upperBound = some (start, stop)) :
    introducer < stop := by
  unfold matchEmailAt at found
  dsimp only at found
  split at found
  next => cases found
  next =>
    split at found
    next => cases found
    next length some =>
      have pos := domainLength_pos code some
      split at found
      next => cases found
      next =>
        cases found
        omega

def findEmails (value : List α) (cursor : Nat) : List (Nat × Nat) :=
  if cursor < value.length then
    match (value.drop cursor).findIdx? fun unit => code unit = '@'.toNat with
    | none => []
    | some relativeAt =>
        let introducer := cursor + relativeAt
        match _found : matchEmailAt code value introducer cursor value.length with
        | none => findEmails value (introducer + 1)
        | some (start, stop) => (start, stop) :: findEmails value stop
  else []
termination_by value.length - cursor
decreasing_by
  · omega
  · have := lt_of_matchEmailAt code _found
    omega

structure GFMEmailMatch (α : Type) where
  start : Nat
  stop : Nat
  address : List α
deriving DecidableEq

def matchesOf (projection : List (ProjectedUnit α)) : List (GFMEmailMatch α) :=
  let value := projection.map ProjectedUnit.value
  (findEmails code value 0).map fun (start, stop) =>
    { start := (projection[start]?.map ProjectedUnit.start).getD 0
      stop := (projection[stop - 1]?.map ProjectedUnit.stop).getD 0
      address := (value.take stop).drop start }

end Matches

def FindGFMEmailMatches (util : MarkdownUtil) (source : List UInt8) : List (GFMEmailMatch UInt8) :=
  matchesOf UInt8.toNat ((serverProjector util).project source source.length 0)

def findGFMEmailMatches (decodeString : Utf16.Units → Utf16.Units) (source : Utf16.Units)
    (lowerBound upperBound : Nat) : List (GFMEmailMatch UInt16) :=
  matchesOf UInt16.toNat ((webProjector decodeString).project source upperBound lowerBound)

end Memos.Markdown.GfmEmail

/-
The tag scanner.

`findTagMatches` walks over one run of source text and enumerates the tags in it.  The
run is a list of code points here, which is what a valid UTF-8 text is, and all offsets
count bytes as in the source; the branches for bytes that are no code point are never
taken on such a run and are left out.

The Unicode classes and the emoji table are generated data, and the tables of the
Markdown library are not part of the repository.  The scanner is a function of both.
-/
import Memos.Lib.Utf
import Mathlib.Data.List.Pairwise
import Memos.Lib.Scan

namespace Memos.Markdown

open Utf8

/-! ### Tables -/

structure CodePointRange where
  lo : Nat
  hi : Nat

structure CodePointClass where
  ranges : Array CodePointRange
  proper : ∀ range ∈ ranges.toList, range.lo ≤ range.hi
  ordered : ranges.toList.Pairwise fun range next => range.hi < next.lo

def CodePointClass.Holds (table : CodePointClass) (r : Char) : Prop :=
  ∃ range ∈ table.ranges.toList, range.lo ≤ r.toNat ∧ r.toNat ≤ range.hi

instance (table : CodePointClass) (r : Char) : Decidable (table.Holds r) :=
  inferInstanceAs (Decidable (∃ range ∈ table.ranges.toList, _))

def maxEmoji17SequenceBytes : Nat := 35

/-- What the scanner looks up.  The facts are what it relies on in the generated tables
and in the documented meaning of the library's functions. -/
structure Tables where
  unicode17XIDContinue : CodePointClass
  unicode17DefaultIgnorable : CodePointClass
  unicode17CombiningMarks : CodePointClass
  emoji17FullyQualified : List Char → Bool
  /-- `util.IsAlphaNumeric` and `util.IsPunct`, for a byte that is a code point. -/
  isAlphaNumeric : Char → Bool
  isPunct : Char → Bool
  lookUpHTML5EntityByName : List Char → Bool
  emoji_size : ∀ emoji, emoji17FullyQualified emoji = true →
    emoji ≠ [] ∧ byteLength emoji ≤ maxEmoji17SequenceBytes
  /-- The separator and the Markdown escape are not text, and no emoji starts with one. -/
  syntax_code_point : ∀ c, c = '/' ∨ c = '\\' → ¬ unicode17XIDContinue.Holds c ∧
    ¬ unicode17DefaultIgnorable.Holds c ∧ ∀ rest, emoji17FullyQualified (c :: rest) = false
  ampersand_not_xid : ¬ unicode17XIDContinue.Holds '&'
  alphaNumeric_ascii : ∀ c, isAlphaNumeric c = true → c.utf8Size = 1
  alphaNumeric_delimiter : isAlphaNumeric '#' = false ∧ isAlphaNumeric ';' = false
  punct_ascii : ∀ c, isPunct c = true → c.utf8Size = 1
  /-- The longest name of HTML5 has fewer characters than the scanner reads. -/
  entity_name : ∀ name, lookUpHTML5EntityByName name = true →
    name ≠ [] ∧ name.length ≤ 32 ∧ ∀ c ∈ name, isAlphaNumeric c = true

/-! ### Classes -/

def containsBetween (ranges : Array CodePointRange) (r : Nat) (low high : Nat) : Bool :=
  if low < high then
    let middle := low + (high - low) / 2
    match ranges[middle]? with
    | none => false
    | some current =>
        if r < current.lo then containsBetween ranges r low middle
        else if current.hi < r then containsBetween ranges r (middle + 1) high
        else true
  else false
termination_by high - low

def containsCodePoint (ranges : Array CodePointRange) (r : Char) : Bool :=
  containsBetween ranges r.toNat 0 ranges.size

section Scanner

variable (t : Tables)

def isXIDContinue (r : Char) : Bool := containsCodePoint t.unicode17XIDContinue.ranges r

def isDefaultIgnorable (r : Char) : Bool := containsCodePoint t.unicode17DefaultIgnorable.ranges r

def isCombiningMark (r : Char) : Bool := containsCodePoint t.unicode17CombiningMarks.ranges r

def isSegmentStarter (r : Char) : Bool :=
  r = '-' || r = '+' || r = '&' || isXIDContinue t r && !isCombiningMark t r && !isDefaultIgnorable t r

def isSegmentContinuation (r : Char) : Bool :=
  r = '-' || r = '+' || r = '&' || isXIDContinue t r && !isDefaultIgnorable t r

def isApostropheJoiner (r : Char) : Bool := r = '\'' || r = '\u2019'

/-! ### Emoji and character references -/

/-- The loop over the code points of `source[before:]`, with the longest match so far. -/
def matchEmoji (limit : Nat) : List Char → List Char → Nat → Nat
  | _, [], longest => longest
  | before, r :: rest, longest =>
      if byteLength before < limit then
        let upTo := before ++ [r]
        if limit < byteLength upTo then longest
        else matchEmoji limit upTo rest
          (if t.emoji17FullyQualified upTo then byteLength upTo else longest)
      else longest

def matchFullyQualifiedEmoji (source : List Char) : Nat :=
  matchEmoji t (min (byteLength source) maxEmoji17SequenceBytes) [] source 0

def startsNonCombiningXIDContinuation (source : List Char) : Bool :=
  match source with
  | [] => false
  | r :: _ =>
      if 0 < matchFullyQualifiedEmoji t source then false
      else isXIDContinue t r && !isCombiningMark t r && !isDefaultIgnorable t r

def scanWhile (p : Char → Bool) : Nat → List Char → Nat
  | max + 1, c :: s => if p c then scanWhile p max s + 1 else 0
  | _, _ => 0

def isDigit (value : Char) : Bool := '0' ≤ value && value ≤ '9'

def isHexDigit (value : Char) : Bool :=
  '0' ≤ value && value ≤ '9' || 'a' ≤ value && value ≤ 'f' || 'A' ≤ value && value ≤ 'F'

/-- The end of a numeric reference whose digits start at `start`. -/
def numericReferenceLength (start maxDigits : Nat) (isDigit : Char → Bool) (digits : List Char) : Nat :=
  let length := scanWhile isDigit maxDigits digits
  if 0 < length && (digits.drop length).head? = some ';' then start + length + 1 else 0

def characterReferenceLength (source : List Char) : Nat :=
  if byteLength source < 3 then 0
  else
    match source with
    | '&' :: '#' :: digits =>
        match digits with
        | 'x' :: hexDigits => numericReferenceLength 3 6 isHexDigit hexDigits
        | 'X' :: hexDigits => numericReferenceLength 3 6 isHexDigit hexDigits
        | _ => numericReferenceLength 2 7 isDigit digits
    | '&' :: text =>
        let length := scanWhile t.isAlphaNumeric 32 text
        if length = 0 || (text.drop length).head? ≠ some ';' then 0
        else if t.lookUpHTML5EntityByName (text.take length) then length + 2
        else 0
    | _ => 0

/-! ### Segments -/

/-- The loop at the label `starter`: the offset after the starter, its value and whether
it emitted an XID code point. -/
def scanStarter : List Char → Nat → Option (Nat × List Char × Bool)
  | [], _ => none
  | r :: rest, pos =>
      let source := r :: rest
      if r = '&' && decide (0 < characterReferenceLength t source) then none
      else
        let emojiLength := matchFullyQualifiedEmoji t source
        if 0 < emojiLength then some (pos + emojiLength, takeBytes emojiLength source, false)
        else if isDefaultIgnorable t r then scanStarter rest (pos + r.utf8Size)
        else if isXIDContinue t r && isCombiningMark t r then scanStarter rest (pos + r.utf8Size)
        else if isSegmentStarter t r then
          some (pos + r.utf8Size, [r], isXIDContinue t r && !isDefaultIgnorable t r)
        else none

/-- The loop after the starter, on the source from `pos` on. -/
def scanContinuations (source : List Char) (pos : Nat) (value : List Char)
    (previousWasXIDContinuation : Bool) : Nat × List Char :=
  match source with
  | [] => (pos, value)
  | r :: rest =>
      if r = '&' && decide (0 < characterReferenceLength t (r :: rest)) then (pos, value)
      else if h : 0 < matchFullyQualifiedEmoji t (r :: rest) then
        have := length_dropBytes_lt h r rest
        scanContinuations (dropBytes (matchFullyQualifiedEmoji t (r :: rest)) (r :: rest))
          (pos + matchFullyQualifiedEmoji t (r :: rest))
          (value ++ takeBytes (matchFullyQualifiedEmoji t (r :: rest)) (r :: rest)) false
      else if isDefaultIgnorable t r then
        scanContinuations rest (pos + r.utf8Size) value false
      else if isApostropheJoiner r && previousWasXIDContinuation
          && startsNonCombiningXIDContinuation t rest then
        scanContinuations rest (pos + r.utf8Size) (value ++ [r]) false
      else if isSegmentContinuation t r then
        scanContinuations rest (pos + r.utf8Size) (value ++ [r])
          (isXIDContinue t r && !isDefaultIgnorable t r)
      else (pos, value)
termination_by source.length
decreasing_by
  · exact this
  · exact Nat.lt_succ_self _
  · exact Nat.lt_succ_self _
  · exact Nat.lt_succ_self _

def scanTagSegment (source : List Char) : Option (Nat × List Char) := do
  let (pos, value, previousWasXIDContinuation) ← scanStarter t source 0
  return scanContinuations t (dropBytes pos source) pos value previousWasXIDContinuation

/-- The segments after the first, on the source from `consumed` on. -/
def scanSegments (source : List Char) (consumed : Nat) (value : List Char) : Nat × List Char :=
  match source with
  | '/' :: rest =>
      match scanTagSegment t rest with
      | none => (consumed, value)
      | some (segmentLength, segmentValue) =>
          have := length_dropBytes_le segmentLength rest
          scanSegments (dropBytes segmentLength rest) (consumed + 1 + segmentLength)
            (value ++ '/' :: segmentValue)
  | _ => (consumed, value)
termination_by source.length
decreasing_by
  rw [List.length_cons]
  omega

def scanTagIdentifier (source : List Char) : Option (Nat × List Char) := do
  let (consumed, value) ← scanTagSegment t source
  return scanSegments t (dropBytes consumed source) consumed value

/-! ### Matches -/

structure TagMatch where
  start : Nat
  stop : Nat
  value : List Char
deriving DecidableEq

/-- The loop of `findTagMatches`, on the source from `pos` on. -/
def findTagMatchesFrom (source : List Char) (pos : Nat) : List TagMatch :=
  match source with
  | [] => []
  | r :: rest =>
      if h : 0 < matchFullyQualifiedEmoji t (r :: rest) then
        have := length_dropBytes_lt h r rest
        findTagMatchesFrom (dropBytes (matchFullyQualifiedEmoji t (r :: rest)) (r :: rest))
          (pos + matchFullyQualifiedEmoji t (r :: rest))
      else if h : 0 < characterReferenceLength t (r :: rest) then
        have := length_dropBytes_lt h r rest
        findTagMatchesFrom (dropBytes (characterReferenceLength t (r :: rest)) (r :: rest))
          (pos + characterReferenceLength t (r :: rest))
      else if r = '\\' && rest.head?.any t.isPunct then
        findTagMatchesFrom rest.tail (pos + 2)
      else if r ≠ '#' then findTagMatchesFrom rest (pos + r.utf8Size)
      else
        match scanTagIdentifier t rest with
        | none => findTagMatchesFrom rest (pos + 1)
        | some (consumed, value) =>
            have := length_dropBytes_le consumed rest
            ⟨pos, pos + consumed + 1, value⟩ ::
              findTagMatchesFrom (dropBytes consumed rest) (pos + consumed + 1)
termination_by source.length
decreasing_by
  · exact this
  · exact this
  · rw [List.length_tail, List.length_cons]
    omega
  · exact Nat.lt_succ_self _
  · exact Nat.lt_succ_self _
  · exact Nat.lt_succ_of_le this

def findTagMatches (source : List Char) : List TagMatch := findTagMatchesFrom t source 0

end Scanner

end Memos.Markdown

/-
The tag grammar.

ADR 0001 states what a tag is by a grammar over source spellings, a value that each
spelling emits, and a priority between the tokens that could start at one position.
This is that text over the same tables.  A token is read at a place in the source, since
an emoji is the longest one that starts there and an apostrophe joins or does not
depending on both its neighbours; so each production relates the source at its start to
the source it leaves, and to what it emits.

A run may still hold Markdown escapes and character references.  They are boundaries no
candidate crosses, and the enumeration passes over each of them as a whole.
-/

namespace Memos.Markdown

open Utf8

variable (t : Tables)

/-! ### Code points -/

def XIDContinue (c : Char) : Prop := t.unicode17XIDContinue.Holds c

def DefaultIgnorable (c : Char) : Prop := t.unicode17DefaultIgnorable.Holds c

def CombiningMark (c : Char) : Prop := t.unicode17CombiningMarks.Holds c

def EmittedXIDContinue (c : Char) : Prop := XIDContinue t c ∧ ¬ DefaultIgnorable t c

def EmittedXIDContinueExceptCombiningMark (c : Char) : Prop :=
  EmittedXIDContinue t c ∧ ¬ CombiningMark t c

def IgnoredLeadingCombiningMark (c : Char) : Prop := EmittedXIDContinue t c ∧ CombiningMark t c

/-- The segment units that Memos adds. -/
def Extension (c : Char) : Prop := c = '-' ∨ c = '+' ∨ c = '&'

def Apostrophe (c : Char) : Prop := c = '\'' ∨ c = '\u2019'

/-! ### What may start at a position -/

/-- The longest emoji sequence at the start of the source. -/
def FullyQualifiedEmoji (source emoji : List Char) : Prop :=
  emoji <+: source ∧ t.emoji17FullyQualified emoji = true ∧
    ∀ other, other <+: source → t.emoji17FullyQualified other = true → other.length ≤ emoji.length

inductive CharacterReference : List Char → Prop
  | decimal (digits : List Char) (some : digits ≠ []) (few : digits.length ≤ 7)
      (all : ∀ c ∈ digits, isDigit c = true) : CharacterReference ('&' :: '#' :: (digits ++ [';']))
  | hexadecimal (x : Char) (hx : x = 'x' ∨ x = 'X') (digits : List Char) (some : digits ≠ [])
      (few : digits.length ≤ 6) (all : ∀ c ∈ digits, isHexDigit c = true) :
      CharacterReference ('&' :: '#' :: x :: (digits ++ [';']))
  | named (name : List Char) (known : t.lookUpHTML5EntityByName name = true) :
      CharacterReference ('&' :: (name ++ [';']))

def ReferenceAt (source reference : List Char) : Prop :=
  reference <+: source ∧ CharacterReference t reference

def EscapeAt (source escape : List Char) : Prop :=
  ∃ c rest, source = '\\' :: c :: rest ∧ t.isPunct c = true ∧ escape = ['\\', c]

def Boundary (source : List Char) : Prop :=
  (∃ reference, ReferenceAt t source reference) ∨ ∃ escape, EscapeAt t source escape

/-- A code point at the start of the source stands for itself. -/
structure Literal (source : List Char) : Prop where
  no_emoji : ¬ ∃ emoji, FullyQualifiedEmoji t source emoji
  no_boundary : ¬ Boundary t source

/-! ### Segments

The flag says whether the code point before was emitted as an `XID_Continue` one.
-/

inductive IgnoredPrefix : List Char → List Char → Prop
  | nil (s : List Char) : IgnoredPrefix s s
  | cons {c : Char} {s r : List Char} (literal : Literal t (c :: s))
      (ignored : DefaultIgnorable t c ∨ IgnoredLeadingCombiningMark t c) (tail : IgnoredPrefix s r) :
      IgnoredPrefix (c :: s) r

inductive SegmentStarter : List Char → Bool → List Char → List Char → Prop
  | emoji {source : List Char} (emoji rest : List Char) (split : source = emoji ++ rest)
      (longest : FullyQualifiedEmoji t source emoji) (no_boundary : ¬ Boundary t source) :
      SegmentStarter source false rest emoji
  | unit (c : Char) (rest : List Char) (joinable : Bool) (literal : Literal t (c :: rest))
      (visible : ¬ DefaultIgnorable t c) (spacing : ¬ IgnoredLeadingCombiningMark t c)
      (starts : EmittedXIDContinueExceptCombiningMark t c ∨ Extension c)
      (flag : joinable = true ↔ EmittedXIDContinue t c) : SegmentStarter (c :: rest) joinable rest [c]

def Joins (source : List Char) : Prop :=
  ∃ c rest, source = c :: rest ∧ Literal t source ∧ EmittedXIDContinueExceptCombiningMark t c

inductive SegmentContinuation : Bool → List Char → Bool → List Char → List Char → Prop
  | emoji {source : List Char} (joinable : Bool) (emoji rest : List Char)
      (split : source = emoji ++ rest) (longest : FullyQualifiedEmoji t source emoji)
      (no_boundary : ¬ Boundary t source) : SegmentContinuation joinable source false rest emoji
  | ignorable (joinable : Bool) (c : Char) (rest : List Char) (literal : Literal t (c :: rest))
      (ignorable : DefaultIgnorable t c) : SegmentContinuation joinable (c :: rest) false rest []
  | joiner (c : Char) (rest : List Char) (literal : Literal t (c :: rest))
      (visible : ¬ DefaultIgnorable t c) (apostrophe : Apostrophe c) (joins : Joins t rest) :
      SegmentContinuation true (c :: rest) false rest [c]
  | unit (joinable : Bool) (c : Char) (rest : List Char) (joinable' : Bool)
      (literal : Literal t (c :: rest)) (visible : ¬ DefaultIgnorable t c)
      (no_joiner : ¬ (joinable = true ∧ Apostrophe c ∧ Joins t rest))
      (continues : EmittedXIDContinue t c ∨ Extension c)
      (flag : joinable' = true ↔ EmittedXIDContinue t c) :
      SegmentContinuation joinable (c :: rest) joinable' rest [c]

inductive SegmentContinuations : Bool → List Char → List Char → List Char → Prop
  | nil (joinable : Bool) (s : List Char) : SegmentContinuations joinable s s []
  | cons {joinable joinable' : Bool} {s s' r value rest : List Char}
      (first : SegmentContinuation t joinable s joinable' s' value)
      (tail : SegmentContinuations joinable' s' r rest) :
      SegmentContinuations joinable s r (value ++ rest)

inductive TagSegmentSpelling : List Char → List Char → List Char → Prop
  | mk {s s₁ s₂ r first rest : List Char} {joinable : Bool} (ignored : IgnoredPrefix t s s₁)
      (starter : SegmentStarter t s₁ joinable s₂ first)
      (continuations : SegmentContinuations t joinable s₂ r rest) :
      TagSegmentSpelling s r (first ++ rest)

inductive TagSourceSpelling : List Char → List Char → List Char → Prop
  | segment {s r value : List Char} (segment : TagSegmentSpelling t s r value) :
      TagSourceSpelling s r value
  | hierarchy {s s' r value rest : List Char} (segment : TagSegmentSpelling t s ('/' :: s') value)
      (tail : TagSourceSpelling s' r rest) : TagSourceSpelling s r (value ++ '/' :: rest)

/-! ### Candidates -/

/-- The longest prefix of the source that the grammar derives, and its value. -/
structure LongestSpelling (source spelling value : List Char) : Prop where
  derived : ∃ rest, source = spelling ++ rest ∧ TagSourceSpelling t source rest value
  longest : ∀ rest value', TagSourceSpelling t source rest value' →
    source.length ≤ spelling.length + rest.length

/-- The source starts with an introducer, and this is the longest spelling after it. -/
structure TagAt (source spelling value : List Char) : Prop where
  no_emoji : ¬ ∃ emoji, FullyQualifiedEmoji t source emoji
  introduced : ∃ rest, source = '#' :: rest ∧ LongestSpelling t rest spelling value

def CandidateAt (source candidate : List Char) : Prop :=
  ∃ spelling value, TagAt t source spelling value ∧ candidate = '#' :: spelling

/-- What candidate enumeration reads as one at the start of the source: the first of
these that there is. -/
def Lexeme (source : List Char) : List Char → Prop :=
  Munch.FirstOf (FullyQualifiedEmoji t source) <|
  Munch.FirstOf (ReferenceAt t source) <|
  Munch.FirstOf (EscapeAt t source) <|
  Munch.FirstOf (CandidateAt t source) fun text => ∃ c rest, source = c :: rest ∧ text = [c]

/-- The left-to-right enumeration of the source comes by where `rest` starts. -/
inductive Passes : List Char → List Char → Prop
  | here (s : List Char) : Passes s s
  | next {source text s rest : List Char} (split : source = text ++ s) (lexeme : Lexeme t source text)
      (tail : Passes s rest) : Passes source rest

/-- A tag of the source: the enumeration comes by its introducer. -/
def IsTagMatch (source : List Char) (m : TagMatch) : Prop :=
  ∃ before rest spelling, source = before ++ rest ∧ Passes t source rest ∧
    TagAt t rest spelling m.value ∧
    m.start = byteLength before ∧ m.stop = byteLength before + byteLength ('#' :: spelling)

/-- The position after `before` is inside something that was read as one. -/
def Inside (source before : List Char) : Prop :=
  ∃ start text rest, source = start ++ (text ++ rest) ∧ Passes t source (text ++ rest) ∧
    Lexeme t (text ++ rest) text ∧ start.length < before.length ∧
    before.length < start.length + text.length

end Memos.Markdown

/-
Blocked words.

The administrator's list of words is compiled into one automaton, so that the time to
search a text does not depend on the number of words.  The nodes are the beginnings of
the words; an edge adds a character, `fail` points to the longest proper suffix that is
a node too, and `output` marks the nodes that end with a word.

Words and texts are folded first, both by the same function.  A text is the list of its
code points here.  The table of lower case letters belongs to the standard library and
is a parameter.  A Go map is visited in an order that nobody knows and that is another
one each time; that order is a parameter too, and nothing may depend on it.
-/
import Memos.Lib.Utf
import Mathlib.Data.List.AList
import Memos.Lib.Runs

namespace Memos.Api

/-! ### Folding -/

/-- The code points that separate nothing and are dropped. -/
def isZeroWidth (r : Char) : Bool :=
  r = '\u200b' || r = '\u200c' || r = '\u200d' || r = '\u2060' || r = '\ufeff'

/-- `unicode.ToLower`, of which the folding relies on one thing: no letter's lower case
is a dropped code point. -/
structure LowerCase where
  toLower : Char → Char
  zeroWidth : ∀ r, isZeroWidth (toLower r) = true → isZeroWidth r = true

def foldModerationText (letters : LowerCase) (value : List Char) : List Char :=
  (value.filter fun r => !isZeroWidth r).map letters.toLower

/-! ### The automaton -/

structure BlockedWordNode where
  next : AList fun _ : Char => Nat
  fail : Nat := 0
  output : Bool := false

structure BlockedWordMatcher where
  nodes : List BlockedWordNode

/-- The order in which the loops visit the entries of a map. -/
structure RangeOrder where
  visit : Nat → List (Σ _ : Char, Nat) → List (Σ _ : Char, Nat)
  perm : ∀ n entries, (visit n entries).Perm entries

namespace BlockedWordMatcher

abbrev Nodes := List BlockedWordNode

def node (nodes : Nodes) (state : Nat) : BlockedWordNode := nodes[state]?.getD { next := ∅ }

def next (nodes : Nodes) (state : Nat) (r : Char) : Option Nat := (node nodes state).next.lookup r

/-- One step of the insertion of a word, from a state with the nodes so far. -/
def insertRune (nodes : Nodes) (state : Nat) (r : Char) : Nodes × Nat :=
  match next nodes state r with
  | some nextState => (nodes, nextState)
  | none =>
      let nextState := nodes.length
      let nodes := nodes.modify state fun n => { n with next := n.next.insert r nextState }
      (nodes ++ [{ next := ∅ }], nextState)

def insertRunes : Nodes → Nat → List Char → Nodes × Nat
  | nodes, state, [] => (nodes, state)
  | nodes, state, r :: word =>
      let (nodes, state) := insertRune nodes state r
      insertRunes nodes state word

def insertWord (letters : LowerCase) (nodes : Nodes) (word : List Char) : Nodes :=
  let (nodes, state) := insertRunes nodes 0 (foldModerationText letters word)
  nodes.modify state fun n => { n with output := true }

/-- The loop that follows `fail` from a state until the root or a node with an edge for
the character.  Each step makes the node's text shorter, so no more steps are taken than
there are nodes. -/
def followFailure (nodes : Nodes) (r : Char) : Nat → Nat → Nat
  | 0, failure => failure
  | steps + 1, failure =>
      if failure = 0 || (next nodes failure r).isSome then failure
      else followFailure nodes r steps (node nodes failure).fail

/-- The child's `fail`, from the node the search for the character stopped at. -/
def setFailure (nodes : Nodes) (failure : Nat) (r : Char) (child : Nat) : Nodes :=
  match next nodes failure r with
  | some target =>
      if target ≠ child then nodes.modify child fun n => { n with fail := target } else nodes
  | none => nodes

/-- A word that ends at the node `fail` points to ends here too. -/
def inheritOutput (nodes : Nodes) (child : Nat) : Nodes :=
  if (node nodes (node nodes child).fail).output then
    nodes.modify child fun n => { n with output := true }
  else nodes

def visitChild (state : Nat) (nodes : Nodes) (edge : Σ _ : Char, Nat) : Nodes :=
  let failure := followFailure nodes edge.1 nodes.length (node nodes state).fail
  inheritOutput (setFailure nodes failure edge.1 edge.2) edge.2

/-- The loop over the queue, on the part of it from `head` on. -/
def visitQueue (order : RangeOrder) : Nat → Nat → Nodes → List Nat → Nodes
  | 0, _, nodes, _ => nodes
  | _ + 1, _, nodes, [] => nodes
  | steps + 1, head, nodes, state :: queue =>
      let edges := order.visit (head + 1) (node nodes state).next.entries
      visitQueue order steps (head + 1) (edges.foldl (visitChild state) nodes)
        (queue ++ edges.map Sigma.snd)

end BlockedWordMatcher

open BlockedWordMatcher

def newBlockedWordMatcher (letters : LowerCase) (order : RangeOrder) (words : List (List Char)) :
    BlockedWordMatcher :=
  let nodes := words.foldl (insertWord letters) [{ next := ∅ }]
  let queue := (order.visit 0 (node nodes 0).next.entries).map Sigma.snd
  ⟨visitQueue order nodes.length 0 nodes queue⟩

def BlockedWordMatcher.scan (nodes : Nodes) : Nat → List Char → Bool
  | _, [] => false
  | state, r :: rest =>
      let state := followFailure nodes r nodes.length state
      let state := (next nodes state r).getD state
      (node nodes state).output || scan nodes state rest

def BlockedWordMatcher.matches (letters : LowerCase) (m : BlockedWordMatcher)
    (content : List Char) : Bool :=
  if m.nodes.length ≤ 1 then false else scan m.nodes 0 (foldModerationText letters content)

/-! ### The word list -/

def maxBlockedWordsSourceBytes : Nat := 31457280

def maxBlockedWordsCount : Nat := 50000

def maxBlockedWordRunes : Nat := 128

def isWordSeparator (r : Char) : Bool :=
  r = '\r' || r = '\n' || r = '\t' || r = ',' || r = '，' || r = ';' || r = '；'

def isSpace (r : Char) : Bool :=
  ('\t' ≤ r && r ≤ '\r') || r = ' ' || r = '\u0085' || r = '\u00a0' || r = '\u1680'
    || ('\u2000' ≤ r && r ≤ '\u200a') || r = '\u2028' || r = '\u2029' || r = '\u202f'
    || r = '\u205f' || r = '\u3000'

def trimSpace (value : List Char) : List Char :=
  ((value.dropWhile isSpace).reverse.dropWhile isSpace).reverse

/-- `strings.FieldsFunc`: the fields between separators, without the empty ones. -/
def fieldsFunc (separator : Char → Bool) (value : List Char) : List (List Char) :=
  (value.splitOnP separator).filter fun field => !field.isEmpty

/-- `strings.TrimPrefix`, here of a byte order mark. -/
def trimPrefix (mark : Char) (value : List Char) : List Char :=
  if value.head? = some mark then value.tail else value

def collectBlockedWords (letters : LowerCase) :
    List (List Char) → List (List Char) → Except String (List (List Char))
  | [], words => .ok words
  | part :: parts, words =>
      let word := trimSpace (foldModerationText letters part)
      if word.isEmpty then collectBlockedWords letters parts words
      else if maxBlockedWordRunes < word.length then
        .error ("blocked word is too long; maximum length is " ++ toString maxBlockedWordRunes
          ++ " characters")
      else if words.contains word then collectBlockedWords letters parts words
      else if maxBlockedWordsCount < words.length + 1 then
        .error ("too many blocked words; maximum count is " ++ toString maxBlockedWordsCount)
      else collectBlockedWords letters parts (words ++ [word])

def normalizeBlockedWords (letters : LowerCase) (content : List Char) :
    Except String (List (List Char)) :=
  if maxBlockedWordsSourceBytes < Utf8.byteLength content then
    .error ("word list is too large; maximum size is "
      ++ toString (maxBlockedWordsSourceBytes / 1048576) ++ " MiB")
  else
    match collectBlockedWords letters
      (fieldsFunc isWordSeparator (trimPrefix '\ufeff' content)) [] with
    | .error message => .error message
    | .ok [] => .error "word list is empty; use the clear button to disable moderation"
    | .ok words => .ok words

end Memos.Api

/-
The list of blocked words in the database, and the matcher in memory.

A replacement and a removal write the database first and the memory afterwards, and take
the lock only for the second of the two.  A reader that finds nothing in memory takes the
lock, looks again, reads the database and fills the memory, and holds the lock all the
while.
-/

namespace Memos.Api.BlockedWords

structure InstanceBlockedWordsSetting where
  words : List (List Char) := []
  sourceType : List Char := []
  sourceName : List Char := []
  sourceURL : List Char := []
  updatedAt : List Char := []
deriving DecidableEq

/-! ### The database -/

/-- `GetInstanceBlockedWordsSetting`, on the row if there is one. -/
def getInstanceBlockedWordsSetting (row : Option InstanceBlockedWordsSetting) :
    InstanceBlockedWordsSetting :=
  row.getD {}

/-! ### Calls on their way -/

inductive Call where
  | replace (setting : InstanceBlockedWordsSetting)
  | clear
  | get
  /-- The row is written, and the memory is not. -/
  | replaced (setting : InstanceBlockedWordsSetting) (matcher : BlockedWordMatcher)
  /-- The row is deleted, and the memory is not written. -/
  | cleared
  /-- There was nothing in memory, and the lock is not taken yet. -/
  | missed
  /-- Holds the lock, and there is still nothing in memory. -/
  | locked
  /-- Holds the lock, and has read the database. -/
  | read (setting : InstanceBlockedWordsSetting)
  | got (setting : InstanceBlockedWordsSetting) (matcher : BlockedWordMatcher)
  | finished
  | failed

structure Server where
  row : Option InstanceBlockedWordsSetting
  /-- What `loaded`, `setting` and `matcher` say together. -/
  cache : Option (InstanceBlockedWordsSetting × BlockedWordMatcher)
  /-- The call that holds the lock from one of its steps to the next. -/
  lock : Option Nat
  calls : List Call

def begin (row : Option InstanceBlockedWordsSetting) : Server where
  row := row
  cache := none
  lock := none
  calls := []

def Server.setCall (s : Server) (i : Nat) (call : Call) : Server :=
  { s with calls := s.calls.set i call }

inductive Action where
  | call (call : Call)
  /-- The next step of a call; the maps of a matcher it builds are visited in some order. -/
  | run (i : Nat) (order : RangeOrder)
  | fail (i : Nat)

def ifUnlocked (s : Server) (next : Server) : Option Server :=
  if s.lock.isNone then some next else none

def runCall (letters : LowerCase) (order : RangeOrder) (s : Server) (i : Nat) : Call → Option Server
  | .replace setting =>
      let matcher := newBlockedWordMatcher letters order setting.words
      some { s.setCall i (.replaced setting matcher) with row := some setting }
  | .clear => some { s.setCall i .cleared with row := none }
  | .replaced setting matcher =>
      ifUnlocked s { s.setCall i .finished with cache := some (setting, matcher) }
  | .cleared =>
      ifUnlocked s { s.setCall i .finished with
        cache := some ({}, newBlockedWordMatcher letters order []) }
  | .get =>
      ifUnlocked s (match s.cache with
        | some (setting, matcher) => s.setCall i (.got setting matcher)
        | none => s.setCall i .missed)
  | .missed =>
      ifUnlocked s (match s.cache with
        | some (setting, matcher) => s.setCall i (.got setting matcher)
        | none => { s.setCall i .locked with lock := some i })
  | .locked => some (s.setCall i (.read (getInstanceBlockedWordsSetting s.row)))
  | .read setting =>
      let matcher := newBlockedWordMatcher letters order setting.words
      some { s.setCall i (.got setting matcher) with cache := some (setting, matcher), lock := none }
  | .got _ _ | .finished | .failed => none

def failCall (s : Server) (i : Nat) : Call → Option Server
  | .replace _ | .clear => some (s.setCall i .failed)
  | .locked => some { s.setCall i .failed with lock := none }
  | _ => none

def Call.isRequest : Call → Bool
  | .replace _ | .clear | .get => true
  | _ => false

def step (letters : LowerCase) (s : Server) : Action → Option Server
  | .call call => if call.isRequest then some { s with calls := s.calls ++ [call] } else none
  | .run i order => s.calls[i]?.bind (runCall letters order s i)
  | .fail i => s.calls[i]?.bind (failCall s i)

end Memos.Api.BlockedWords

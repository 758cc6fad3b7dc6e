/-
The tokens of a user.

All tokens of one kind that a user has, the refresh tokens or the personal access tokens,
are one row of the settings table, and the store keeps a cache in front of the table.
Adding or removing a token reads the list, from the cache if it is there, and writes the
new list to the row and then to the cache.  A mutex for the kind keeps two such
operations apart.

Reading a setting takes no mutex.  It fills the cache with what it found in the table,
in a step of its own after the query, and anything may happen in between.

What is modelled is one kind, with any number of calls at any point of their way.  A
statement on the database and an access to the cache are one step each.  The cache drops
entries whenever it likes.
-/
import Memos.Lib.Runs
import Mathlib.Data.List.AList

namespace Memos.Store.Tokens

/-! ### Settings -/

structure Token where
  tokenID : String
  lastUsedAt : Option Int
  details : String
deriving DecidableEq

structure UserSetting where
  userID : Int
  tokens : List Token
deriving DecidableEq

/-- The calls of the store, for one kind of token. -/
inductive Operation where
  /-- `GetUserSetting`, and what only searches its result. -/
  | getTokens (userID : Int)
  | listSettings (userID : Option Int)
  | addToken (userID : Int) (token : Token)
  | removeToken (userID : Int) (tokenID : String)
  | updateLastUsed (userID : Int) (tokenID : String) (lastUsed : Option Int)
deriving DecidableEq

namespace Operation

/-- The operation holds the mutex from its first step to its last. -/
def locks : Operation → Bool
  | .getTokens _ | .listSettings _ => false
  | .addToken _ _ | .removeToken _ _ | .updateLastUsed _ _ _ => true

def user? : Operation → Option Int
  | .getTokens userID | .addToken userID _ | .removeToken userID _
  | .updateLastUsed userID _ _ => some userID
  | .listSettings userID => userID

def userID (op : Operation) : Int := op.user?.getD 0

end Operation

/-- The list with a later time in the first token of that id.  A time that is not later
changes nothing, and then nothing is written. -/
def updatedTokens (tokenID : String) (lastUsed : Option Int) : List Token → Option (List Token)
  | [] => none
  | token :: rest =>
      if token.tokenID = tokenID then
        if lastUsed.any fun used => token.lastUsedAt.any fun last => decide (used ≤ last) then none
        else some ({ token with lastUsedAt := lastUsed } :: rest)
      else (updatedTokens tokenID lastUsed rest).map (token :: ·)

/-- What the operation writes, given the list it read. -/
def Operation.write (tokens : List Token) : Operation → Option (List Token)
  | .getTokens _ | .listSettings _ => none
  | .addToken _ token => some (tokens ++ [token])
  | .removeToken _ tokenID => some (tokens.filter fun token => token.tokenID ≠ tokenID)
  | .updateLastUsed _ tokenID lastUsed => updatedTokens tokenID lastUsed tokens

def tokensOf (settings : List UserSetting) : List Token :=
  (settings.head?.map UserSetting.tokens).getD []

/-! ### Calls on their way -/

inductive Thread where
  | called (op : Operation)
  | reading (op : Operation)
  | missed (op : Operation)
  /-- Back from the query, with entries still to be put into the cache. -/
  | filling (op : Operation) (settings fills : List UserSetting)
  | upserting (op : Operation) (tokens : List Token)
  | caching (op : Operation) (tokens : List Token)
  | returning (op : Operation) (settings : List UserSetting)
  | returned (op : Operation) (settings : List UserSetting)
  | failed (op : Operation)
deriving DecidableEq

structure State where
  rows : AList fun _ : Int => List Token
  cache : Int → Option (List Token)
  mutex : Option Nat
  threads : List Thread

def State.idle (rows : AList fun _ : Int => List Token) (cache : Int → Option (List Token)) :
    State :=
  { rows, cache, mutex := none, threads := [] }

def State.setThread (s : State) (i : Nat) (thread : Thread) : State :=
  { s with threads := s.threads.set i thread }

def State.setCache (s : State) (setting : UserSetting) : State :=
  { s with cache := fun id => if id = setting.userID then some setting.tokens else s.cache id }

def Operation.query (rows : AList fun _ : Int => List Token) (op : Operation) :
    List UserSetting :=
  match op.user? with
  | some userID => ((rows.lookup userID).map fun tokens => ⟨userID, tokens⟩).toList
  | none => rows.entries.map fun row => ⟨row.1, row.2⟩

/-- The entries a call puts into the cache: `ListUserSettings` each of its rows, and
`GetUserSetting` its only one once more. -/
def Operation.fills (settings : List UserSetting) : Operation → List UserSetting
  | .listSettings _ => settings
  | _ => settings ++ settings.take 1

def proceed (op : Operation) (settings : List UserSetting) : Thread :=
  match op.write (tokensOf settings) with
  | some tokens => .upserting op tokens
  | none => .returning op settings

/-! ### Steps -/

inductive Action where
  | call (op : Operation)
  | run (i : Nat)
  | fail (i : Nat)
  | evict (userID : Int)
  /-- The statement of `DeleteUserSettings`; the rest of it is a listing and evictions. -/
  | deleteRow (userID : Int)

def Operation.first (op : Operation) : Thread :=
  match op with
  | .listSettings _ => .missed op
  | _ => .reading op

def enter (s : State) (i : Nat) (op : Operation) : Option State :=
  match op.locks, s.mutex with
  | true, some _ => none
  | true, none => some { s.setThread i op.first with mutex := some i }
  | false, _ => some (s.setThread i op.first)

def runThread (s : State) (i : Nat) : Thread → Option State
  | .called op => enter s i op
  | .reading op =>
      match s.cache op.userID with
      | some tokens => some (s.setThread i (proceed op [⟨op.userID, tokens⟩]))
      | none => some (s.setThread i (.missed op))
  | .missed op =>
      let settings := op.query s.rows
      some (s.setThread i (.filling op settings (op.fills settings)))
  | .filling op settings (setting :: fills) =>
      some ((s.setCache setting).setThread i (.filling op settings fills))
  | .filling op settings [] => some (s.setThread i (proceed op settings))
  | .upserting op tokens =>
      some { s.setThread i (.caching op tokens) with rows := s.rows.insert op.userID tokens }
  | .caching op tokens =>
      some ((s.setCache ⟨op.userID, tokens⟩).setThread i (.returning op [⟨op.userID, tokens⟩]))
  | .returning op settings =>
      some { s.setThread i (.returned op settings) with
        mutex := if op.locks then none else s.mutex }
  | .returned _ _ | .failed _ => none

def failThread (s : State) (i : Nat) : Thread → Option State
  | .missed op | .upserting op _ =>
      some { s.setThread i (.failed op) with mutex := if op.locks then none else s.mutex }
  | _ => none

def step (s : State) : Action → Option State
  | .call op => some { s with threads := s.threads ++ [.called op] }
  | .run i => s.threads[i]?.bind (runThread s i)
  | .fail i => s.threads[i]?.bind (failThread s i)
  | .evict userID => some { s with cache := fun id => if id = userID then none else s.cache id }
  | .deleteRow userID => some { s with rows := s.rows.erase userID }

end Memos.Store.Tokens

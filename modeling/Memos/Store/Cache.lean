/-
The cache in memory.

A counter is kept beside the map, and a set that takes it above the limit evicts some of the
entries that expire first.  The map is visited in no particular order: where an operation
goes through it, the order comes with the operation.

Operations are taken here one after another, each as a whole.
-/
import Memos.Lib.Earliest
import Memos.Lib.Runs
import Mathlib.Data.List.AList

namespace Memos.Store

structure Item (V : Type) where
  value : V
  expiration : Int

structure Cache.Config where
  defaultTTL : Int
  maxItems : Int
  /-- Whether there is a function to call on an eviction. -/
  onEviction : Bool

structure Cache (V : Type) where
  itemCount : Int
  data : AList fun _ : String => Item V

namespace Cache

variable {V : Type}

/-- What `OnEviction` is called with, one call after the other. -/
abbrev Calls (V : Type) := List (String × V)

def Config.call (config : Config) (evicted : List (String × Item V)) : Calls V :=
  if config.onEviction then evicted.map fun entry => (entry.1, entry.2.value) else []

/-- What is met when the map is visited in an order of its keys. -/
def range (data : AList fun _ : String => Item V) (order : List String) : List (String × Item V) :=
  order.filterMap fun key => (data.lookup key).map fun itm => (key, itm)

def eraseAll (data : AList fun _ : String => Item V) (keys : List String) :
    AList fun _ : String => Item V :=
  keys.foldl (fun data key => data.erase key) data

/-! ### Operations -/

/-- How many are evicted at once. -/
def threshold (config : Config) : Nat := (max (config.maxItems.tdiv 5) 1).toNat

/-- The candidates, after all entries have been offered. -/
def oldest (config : Config) (entries : List (String × Item V)) : List (String × Item V) :=
  entries.foldl (Earliest.offer (fun entry => entry.2.expiration) (threshold config)) []

def cleanupOldest (config : Config) (order : List String) (c : Cache V) : Cache V × Calls V :=
  if c.itemCount ≤ config.maxItems then (c, [])
  else
    let candidates := oldest config (range c.data order)
    ({ itemCount := c.itemCount - candidates.length
       data := eraseAll c.data (candidates.map Prod.fst) },
      config.call candidates)

/-- The set up to the check of the limit. -/
def put (key : String) (itm : Item V) (c : Cache V) : Cache V :=
  let c := if key ∈ c.data then { c with data := c.data.erase key }
    else { c with itemCount := c.itemCount + 1 }
  { c with data := c.data.insert key itm }

def SetWithTTL (config : Config) (order : List String) (key : String) (value : V) (ttl now : Int)
    (c : Cache V) : Cache V × Calls V :=
  let c := put key ⟨value, now + ttl⟩ c
  if config.maxItems > 0 ∧ c.itemCount > config.maxItems then cleanupOldest config order c
  else (c, [])

def Set (config : Config) (order : List String) (key : String) (value : V) (now : Int)
    (c : Cache V) : Cache V × Calls V :=
  SetWithTTL config order key value config.defaultTTL now c

def Get (config : Config) (key : String) (now : Int) (c : Cache V) : Option V × Cache V × Calls V :=
  match c.data.lookup key with
  | none => (none, c, [])
  | some itm =>
      if now > itm.expiration then
        (none, { itemCount := c.itemCount - 1, data := c.data.erase key }, config.call [(key, itm)])
      else (some itm.value, c, [])

def Delete (config : Config) (key : String) (c : Cache V) : Cache V × Calls V :=
  match c.data.lookup key with
  | none => (c, [])
  | some itm =>
      ({ itemCount := c.itemCount - 1, data := c.data.erase key }, config.call [(key, itm)])

def Clear (config : Config) (order : List String) (c : Cache V) : Cache V × Calls V :=
  let entries := range c.data order
  ({ itemCount := 0, data := eraseAll c.data (entries.map Prod.fst) }, config.call entries)

/-- The entries that are expired when they are visited, each at a time of its own. -/
def expired (data : AList fun _ : String => Item V) (visits : List (String × Int)) :
    List (String × Item V) :=
  visits.filterMap fun visit =>
    ((data.lookup visit.1).filter fun itm => visit.2 > itm.expiration).map fun itm => (visit.1, itm)

def cleanup (config : Config) (visits : List (String × Int)) (c : Cache V) : Cache V × Calls V :=
  let evicted := expired c.data visits
  ({ itemCount := c.itemCount - evicted.length, data := eraseAll c.data (evicted.map Prod.fst) },
    config.call evicted)

def Size (c : Cache V) : Int := c.itemCount

/-! ### Sequences of operations -/

inductive Operation (V : Type) where
  | set (key : String) (value : V) (now : Int) (order : List String)
  | setWithTTL (key : String) (value : V) (ttl now : Int) (order : List String)
  | get (key : String) (now : Int)
  | delete (key : String)
  | clear (order : List String)
  | cleanup (visits : List (String × Int))

/-- A cache, with what was set, the last one first, and what was called. -/
structure Log (V : Type) where
  cache : Cache V
  sets : List (String × V × Int)
  calls : Calls V

def Log.take (l : Log V) (result : Cache V × Calls V) : Log V :=
  { l with cache := result.1, calls := l.calls ++ result.2 }

def Log.remember (l : Log V) (key : String) (value : V) (expiration : Int) : Log V :=
  { l with sets := (key, value, expiration) :: l.sets }

/-- The keys are those of the map, each once, at the time when it is visited. -/
def Visits (order keys : List String) : Prop := order.Perm keys

instance (order keys : List String) : Decidable (Visits order keys) :=
  inferInstanceAs (Decidable (order.Perm keys))

def step (config : Config) (l : Log V) : Operation V → Option (Log V)
  | .set key value now order =>
      let itm : Item V := ⟨value, now + config.defaultTTL⟩
      if Visits order (put key itm l.cache).data.keys then
        some ((l.take (Set config order key value now l.cache)).remember key value itm.expiration)
      else none
  | .setWithTTL key value ttl now order =>
      let itm : Item V := ⟨value, now + ttl⟩
      if Visits order (put key itm l.cache).data.keys then
        some ((l.take (SetWithTTL config order key value ttl now l.cache)).remember key value
          itm.expiration)
      else none
  | .get key now => some (l.take (Get config key now l.cache).2)
  | .delete key => some (l.take (Delete config key l.cache))
  | .clear order =>
      if Visits order l.cache.data.keys then some (l.take (Clear config order l.cache)) else none
  | .cleanup visits =>
      if Visits (visits.map Prod.fst) l.cache.data.keys then
        some (l.take (cleanup config visits l.cache))
      else none

/-- `New`. -/
def fresh : Log V := ⟨⟨0, ∅⟩, [], []⟩

end Cache

end Memos.Store

/-
Calls on one cache at the same time.

A call is a sequence of steps, each of which is atomic: an operation on the map, or one on the
counter.  Between two of them any other call may take its own.  A visit of the map meets
what is stored under a key at that moment, and no key twice; the keys it meets are those it
happens to.
-/

namespace Memos.Store.Cache

/-- What a call does next. -/
inductive Phase (V : Type) where
  | setLoad (key : String) (value : V) (ttl : Int)
  | setDelete (key : String) (value : V) (ttl : Int)
  | setAdd (key : String) (value : V) (ttl : Int)
  | setStore (key : String) (value : V) (ttl : Int)
  | setCheck
  | oldestLoad
  | oldestRange (visited : List String) (candidates : List (String × Item V))
  | oldestDelete (candidates : List String) (deleted : Nat)
  | oldestAdd (deleted : Nat)
  | getLoad (key : String)
  | getDelete (key : String)
  | getAdd
  | deleteLoad (key : String)
  | deleteAdd
  | clearRange (visited : List String) (deleted : Nat)
  | clearDelete (key : String) (visited : List String) (deleted : Nat)
  | clearStore (deleted : Nat)
  | cleanupRange (visited : List String) (deleted : Nat)
  | cleanupDelete (key : String) (visited : List String) (deleted : Nat)
  | cleanupAdd (deleted : Nat)
  | returned

inductive Call (V : Type) where
  | set (key : String) (value : V)
  | setWithTTL (key : String) (value : V) (ttl : Int)
  | get (key : String)
  | delete (key : String)
  | clear
  | cleanup

def Call.first {V : Type} (config : Config) : Call V → Phase V
  | .set key value => .setLoad key value config.defaultTTL
  | .setWithTTL key value ttl => .setLoad key value ttl
  | .get key => .getLoad key
  | .delete key => .deleteLoad key
  | .clear => .clearRange [] 0
  | .cleanup => .cleanupRange [] 0

variable {V : Type}

def erase (c : Cache V) (key : String) : Cache V := { c with data := c.data.erase key }

def add (c : Cache V) (delta : Int) : Cache V := { c with itemCount := c.itemCount + delta }

/-- The next visit of the map: the entry under a key that was not visited yet. -/
def meet (c : Cache V) (visited : List String) (key : String) : Option (Item V) :=
  if key ∈ visited then none else c.data.lookup key

/-- One step of a call, at a time.  Where it goes through the map, it visits a key or is done. -/
def advance (config : Config) (c : Cache V) (now : Int) (visit : Option String) :
    Phase V → Option (Cache V × Phase V)
  | .setLoad key value ttl =>
      some (c, if key ∈ c.data then .setDelete key value ttl else .setAdd key value ttl)
  | .setDelete key value ttl => some (c.erase key, .setStore key value ttl)
  | .setAdd key value ttl => some (c.add 1, .setStore key value ttl)
  | .setStore key value ttl =>
      some ({ c with data := c.data.insert key ⟨value, now + ttl⟩ }, .setCheck)
  | .setCheck =>
      some (c, if config.maxItems > 0 ∧ c.itemCount > config.maxItems then .oldestLoad else .returned)
  | .oldestLoad => some (c, if c.itemCount ≤ config.maxItems then .returned else .oldestRange [] [])
  | .oldestRange visited candidates =>
      match visit with
      | none => some (c, .oldestDelete (candidates.map Prod.fst) 0)
      | some key => (meet c visited key).map fun itm =>
          (c, .oldestRange (key :: visited)
            (Earliest.offer (fun entry => entry.2.expiration) (threshold config) candidates (key, itm)))
  | .oldestDelete [] deleted => some (c, .oldestAdd deleted)
  | .oldestDelete (key :: candidates) deleted =>
      some (c.erase key, .oldestDelete candidates (deleted + 1))
  | .oldestAdd deleted => some (c.add (-deleted), .returned)
  | .getLoad key =>
      some (c, match c.data.lookup key with
        | none => .returned
        | some itm => if now > itm.expiration then .getDelete key else .returned)
  | .getDelete key => some (c.erase key, .getAdd)
  | .getAdd => some (c.add (-1), .returned)
  | .deleteLoad key => some (if key ∈ c.data then (c.erase key, .deleteAdd) else (c, .returned))
  | .deleteAdd => some (c.add (-1), .returned)
  | .clearRange visited deleted =>
      match visit with
      | none => some (c, .clearStore deleted)
      | some key => (meet c visited key).map fun _ => (c, .clearDelete key visited deleted)
  | .clearDelete key visited deleted =>
      some (c.erase key, .clearRange (key :: visited) (deleted + 1))
  | .clearStore _ => some ({ c with itemCount := 0 }, .returned)
  | .cleanupRange visited deleted =>
      match visit with
      | none => some (c, .cleanupAdd deleted)
      | some key => (meet c visited key).map fun itm =>
          (c, if now > itm.expiration then .cleanupDelete key visited deleted
            else .cleanupRange (key :: visited) deleted)
  | .cleanupDelete key visited deleted =>
      some (c.erase key, .cleanupRange (key :: visited) (deleted + 1))
  | .cleanupAdd deleted => some (c.add (-deleted), .returned)
  | .returned => none

/-- A cache with the calls on it. -/
structure Shared (V : Type) where
  cache : Cache V
  calls : List (Phase V)

inductive Action (V : Type) where
  | start (call : Call V)
  | advance (i : Nat) (now : Int) (visit : Option String)

def stepCalls (config : Config) (s : Shared V) : Action V → Option (Shared V)
  | .start call => some { s with calls := s.calls ++ [call.first config] }
  | .advance i now visit =>
      s.calls[i]?.bind fun phase =>
        (advance config s.cache now visit phase).map fun next =>
          { cache := next.1, calls := s.calls.set i next.2 }

/-- A new cache. -/
def unused : Shared V := ⟨⟨0, ∅⟩, []⟩

end Memos.Store.Cache

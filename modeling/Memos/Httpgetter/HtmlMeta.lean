/-
The previews of links.

What a page says about itself is fetched for all who ask at that time, and kept for a while.
The group is to run one flight for a page and to give its result to all that have joined it, and
the semaphore is to let some flights fetch at once; both come from `golang.org/x/sync`.  How a
fetch ends comes with the step that ends it, and so does the order in which the map of the cache
is visited.  Times are in nanoseconds.
-/
import Memos.Lib.Earliest
import Mathlib.Data.List.AList

namespace Memos.Httpgetter

structure HTMLMeta where
  title : String
  description : String
  image : String
deriving DecidableEq

abbrev Result := Except String HTMLMeta

structure CacheEntry where
  result : Result
  expiresAt : Int
  storedAt : Int

abbrev MetaCache := AList fun _ : String => CacheEntry

def maxCacheEntries : Nat := 1000
def maxConcurrentFetches : Nat := 8
def successCacheTTL : Int := 24 * 60 * 60 * 1000000000
def failureCacheTTL : Int := 60 * 1000000000

def getCached (now : Int) (key : String) (cache : MetaCache) : Option Result × MetaCache :=
  match cache.lookup key with
  | none => (none, cache)
  | some entry =>
      if entry.expiresAt ≤ now then (none, cache.erase key) else (some entry.result, cache)

/-- The key that the loop over the map ends with.  No key is empty, so that the empty one stands
for none in the source. -/
def oldestKey (order : List String) (cache : MetaCache) : Option String :=
  let entries := order.filterMap fun key => (cache.lookup key).map (key, ·)
  entries[Earliest.latest (fun entry => -entry.2.storedAt) entries]?.map Prod.fst

def setCached (order : List String) (now : Int) (key : String) (result : Result) (ttl : Int)
    (cache : MetaCache) : MetaCache :=
  let cache := if key ∉ cache ∧ maxCacheEntries ≤ cache.keys.length then
      ((oldestKey order cache).map cache.erase).getD cache
    else cache
  cache.insert key ⟨result, now + ttl, now⟩

/-- What is used of `golang.org/x/sync`: a semaphore of which everybody takes one, and a group that
runs a function for a key.  The channel of a call has the number of the call. -/
structure Sync (σ γ : Type) where
  NewWeighted : Nat → σ
  /-- None while it has to wait. -/
  Acquire : σ → Option σ
  Release : σ → σ
  Group : γ
  /-- Whether the function is run. -/
  DoChan : γ → String → Nat → Bool × γ
  /-- The function has returned: the channels that its result is sent to. -/
  Send : γ → String → List Nat × γ

/-- What is documented of them.  No more than its size is acquired of a semaphore.  Of all that ask
for a key while its function runs the first one has it run, and each of them gets the result. -/
structure Sync.Documented {σ γ : Type} (sync : Sync σ γ) (size acquired : σ → Nat)
    (joined : γ → Set (String × Nat)) : Prop where
  new : ∀ n, size (sync.NewWeighted n) = n ∧ acquired (sync.NewWeighted n) = 0
  acquire : ∀ s s', sync.Acquire s = some s' →
    size s' = size s ∧ acquired s' = acquired s + 1 ∧ acquired s' ≤ size s
  release : ∀ s, 0 < acquired s →
    size (sync.Release s) = size s ∧ acquired (sync.Release s) + 1 = acquired s
  idle : joined sync.Group = ∅
  first : ∀ g key c, (sync.DoChan g key c).1 = true ↔ ∀ c', (key, c') ∉ joined g
  join : ∀ g key c, joined (sync.DoChan g key c).2 = insert (key, c) (joined g)
  sent : ∀ g key c, c ∈ (sync.Send g key).1 ↔ (key, c) ∈ joined g
  leave : ∀ g key, joined (sync.Send g key).2 = {call ∈ joined g | call.1 ≠ key}

/-- Where the function of a flight is. -/
inductive Flight where
  | looking
  | acquiring
  | fetching
  | fetched (result : Result)
  | stored (result : Result)
  /-- The semaphore is released, if it was acquired. -/
  | returned (result : Result)

/-- Where a call of `Get` is, behind `normalizeURL`. -/
inductive Get where
  | called (key : String)
  | missed (key : String)
  | waiting (key : String)
  | handed (key : String) (result : Result)
  /-- None if its context was done. -/
  | answered (key : String) (result : Option Result)

def Get.hand (result : Result) : Get → Get
  | .waiting key => .handed key result
  | get => get

structure HTMLMetaFetcher (σ γ : Type) where
  semaphore : σ
  group : γ
  now : Int
  cache : MetaCache
  /-- The functions that run, with their keys. -/
  flights : List (String × Flight)
  calls : List Get
  /-- Every entry that there has been. -/
  log : List (String × CacheEntry)

namespace HTMLMetaFetcher

variable {σ γ : Type} (sync : Sync σ γ)

def NewHTMLMetaFetcher (now : Int) : HTMLMetaFetcher σ γ :=
  ⟨sync.NewWeighted maxConcurrentFetches, sync.Group, now, ∅, [], [], []⟩

inductive Action where
  | tick (now : Int)
  | call (key : String)
  | run (i : Nat)
  /-- The context of a call is done. -/
  | cancel (i : Nat)
  | fly (i : Nat) (fetched : Result) (order : List String)
  /-- The time of a flight is up before it has acquired the semaphore. -/
  | giveUp (i : Nat) (err : String)

def goOn (s : HTMLMetaFetcher σ γ) (i : Nat) (key : String) (flight : Flight) : HTMLMetaFetcher σ γ :=
  { s with flights := s.flights.set i (key, flight) }

def runCall (s : HTMLMetaFetcher σ γ) (i : Nat) : Get → Option (HTMLMetaFetcher σ γ)
  | .called key =>
      let (cached, cache) := getCached s.now key s.cache
      let get := match cached with
        | some result => Get.answered key (some result)
        | none => .missed key
      some { s with cache, calls := s.calls.set i get }
  | .missed key =>
      let (first, group) := sync.DoChan s.group key i
      let flights := if first then s.flights ++ [(key, .looking)] else s.flights
      some { s with group, flights, calls := s.calls.set i (.waiting key) }
  | .handed key result => some { s with calls := s.calls.set i (.answered key (some result)) }
  | _ => none

def runFlight (s : HTMLMetaFetcher σ γ) (i : Nat) (key : String) (fetched : Result)
    (order : List String) : Flight → Option (HTMLMetaFetcher σ γ)
  | .looking =>
      let (cached, cache) := getCached s.now key s.cache
      some <| { s with cache }.goOn i key <| match cached with
        | some result => .returned result
        | none => .acquiring
  | .acquiring =>
      (sync.Acquire s.semaphore).map fun semaphore => { s with semaphore }.goOn i key .fetching
  | .fetching => some <| s.goOn i key (.fetched fetched)
  | .fetched result =>
      let ttl := match result with
        | .ok _ => successCacheTTL
        | .error _ => failureCacheTTL
      if order.Perm s.cache.keys then
        some <| { s with
          cache := setCached order s.now key result ttl s.cache
          log := (key, ⟨result, s.now + ttl, s.now⟩) :: s.log }.goOn i key (.stored result)
      else none
  | .stored result =>
      some <| { s with semaphore := sync.Release s.semaphore }.goOn i key (.returned result)
  | .returned result =>
      let (channels, group) := sync.Send s.group key
      let calls := s.calls.mapIdx fun c get => if c ∈ channels then get.hand result else get
      some { s with group, calls, flights := s.flights.eraseIdx i }

def next (s : HTMLMetaFetcher σ γ) : Action → Option (HTMLMetaFetcher σ γ)
  | .tick now => if s.now ≤ now then some { s with now } else none
  | .call key => some { s with calls := s.calls ++ [.called key] }
  | .run i => s.calls[i]?.bind (s.runCall sync i)
  | .cancel i =>
      match s.calls[i]? with
      | some (.waiting key) | some (.handed key _) =>
          some { s with calls := s.calls.set i (.answered key none) }
      | _ => none
  | .fly i fetched order =>
      s.flights[i]?.bind fun (key, flight) => s.runFlight sync i key fetched order flight
  | .giveUp i err =>
      match s.flights[i]? with
      | some (key, .acquiring) => some <| s.goOn i key (.returned (.error err))
      | _ => none

end HTMLMetaFetcher

end Memos.Httpgetter

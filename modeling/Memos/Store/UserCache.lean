/-
Users, and the cache in front of their table.

Whatever reads or writes users puts what it has got into the cache, one user under the
user's id: a listing all its rows, a creation and an update the row the statement
returned.  A deletion takes the entry out.  The statement and the cache are two steps,
no lock is held across them, and a query may be answered long before its rows get into
the cache.

A user that is asked for by id is taken from the cache if it is there.
-/
import Memos.Store.Spaces
import Memos.Lib.Runs
import Mathlib.Data.List.Sort

namespace Memos.Store.Users

/-! ### The table -/

deriving instance DecidableEq for UserRow

/-- What the queries use of the driver's database and of the standard library. -/
structure Engine where
  lower : String → String
  /-- `LIKE`: the text, then the pattern. -/
  like : String → String → Bool
  toLower : String → String
  trimSpace : String → String

structure FindUser where
  id : Option Int := none
  idList : List Int := []
  usernameList : List String := []
  rowStatus : Option RowStatus := none
  username : Option String := none
  role : Option Role := none
  email : Option String := none
  nickname : Option String := none
  search : Option String := none
  filters : List String := []
  limit : Option Int := none
  offset : Option Int := none
deriving DecidableEq

def FindUser.query (engine : Engine) (find : FindUser) : Option String :=
  (find.search.map engine.trimSpace).filter (· ≠ "") |>.map engine.toLower

/-- The criteria besides the id, as the `WHERE` clause has them. -/
def FindUser.matchesRest (engine : Engine) (find : FindUser) (u : UserRow) : Bool :=
  (find.idList.isEmpty || find.idList.contains u.id)
    && (find.usernameList.isEmpty || find.usernameList.contains u.username)
    && find.rowStatus.all (fun v => decide (u.rowStatus = v))
    && find.username.all (fun v => decide (u.username = v))
    && find.role.all (fun v => decide (u.role = v))
    && find.email.all (fun v => decide (u.email = v))
    && find.nickname.all (fun v => decide (u.nickname = v))
    && (find.query engine).all fun query =>
      engine.like (engine.lower u.username) ("%" ++ query ++ "%")
        || engine.like (engine.lower u.nickname) ("%" ++ query ++ "%")

def FindUser.matches (engine : Engine) (find : FindUser) (u : UserRow) : Bool :=
  find.id.all (fun id => decide (u.id = id)) && find.matchesRest engine u

def statusRank (status : RowStatus) : Nat := if status = .Normal then 1 else 0

def searchRank (engine : Engine) (query : String) (u : UserRow) : Nat :=
  if engine.lower u.username = query then 0
  else if engine.like (engine.lower u.username) (query ++ "%") then 1
  else if engine.like (engine.lower u.nickname) (query ++ "%") then 2
  else 3

def order (engine : Engine) (find : FindUser) (a b : UserRow) : Ordering :=
  let newest := (compare b.createdTs a.createdTs).then
    (compare (statusRank b.rowStatus) (statusRank a.rowStatus))
  match find.query engine with
  | none => newest.then (compare b.id a.id)
  | some query =>
      ((compare (searchRank engine query a) (searchRank engine query b)).then
        (compare a.username.length b.username.length)).then newest

/-- `LIMIT` and `OFFSET`; a limit below zero is none, and without a limit no offset is
asked for. -/
def page (find : FindUser) (list : List UserRow) : List UserRow :=
  match find.limit with
  | none => list
  | some limit =>
      let rest := list.drop (find.offset.getD 0).toNat
      if limit < 0 then rest else rest.take limit.toNat

def listUsers (engine : Engine) (state : State) (find : FindUser) : Except StoreError (List UserRow) := do
  require find.filters.isEmpty (.Invalid "user filters are not supported")
  return page find ((state.users.select (find.matches engine)).insertionSort fun a b =>
    order engine find a b ≠ .gt)

structure CreateUser where
  username : String
  role : Role
  email : String
  nickname : String
  passwordHash : String
  avatarURL : String
  description : String
deriving DecidableEq

/-- The driver's `CreateUser`, with the largest id the user table ever handed out. -/
def createUser (state : State) (userSequence now : Int) (create : CreateUser) :
    Except StoreError (State × UserRow) := do
  let user : UserRow :=
    { id := nextID userSequence (state.users.rows.map UserRow.id)
      createdTs := now
      updatedTs := now
      rowStatus := .Normal
      username := create.username
      role := create.role
      email := create.email
      nickname := create.nickname
      passwordHash := create.passwordHash
      avatarURL := create.avatarURL
      description := create.description }
  let users ← constrained (.Constraint .unique) (state.users.insert user)
  return ({ state with users }, user)

/-! ### Calls on their way -/

inductive Request where
  | updateUser (update : UpdateUser)
  | createUser (create : CreateUser)
  | deleteUser (id : Int)
  | listUsers (find : FindUser)
  | getUser (find : FindUser)

inductive Call where
  | called (request : Request)
  /-- `GetUser` has not found the user in the cache, or not looked. -/
  | missed (find : FindUser)
  /-- Back from the query, with users still to be put into the cache. -/
  | filling (request : Request) (list fills : List UserRow)
  | wrote (user : UserRow)
  | deleted (id : Int)
  | listed (find : FindUser) (list : List UserRow)
  | found (find : FindUser) (user : Option UserRow)
  | finished
  | failed

structure Server where
  state : State
  userSequence : Int
  cache : Int → Option UserRow
  calls : List Call

def Server.setCall (s : Server) (i : Nat) (call : Call) : Server :=
  { s with calls := s.calls.set i call }

def Server.setCache (s : Server) (user : UserRow) : Server :=
  { s with cache := fun id => if id = user.id then some user else s.cache id }

def answer (list : List UserRow) : Request → Call
  | .getUser find => .found find list.head?
  | .listUsers find => .listed find list
  | _ => .finished

inductive Action where
  | call (request : Request)
  | run (i : Nat) (now : Int)
  | fail (i : Nat)
  | evict (id : Int)
  /-- Something else happens in the database that leaves the users alone. -/
  | elsewhere (state : State)

def execute (engine : Engine) (s : Server) (i : Nat) (now : Int) : Request → Server
  | .updateUser update =>
      match updateUser s.state update with
      | .ok (state, user) => { s.setCall i (.wrote user) with state }
      | .error _ => s.setCall i .failed
  | .createUser create =>
      match createUser s.state s.userSequence now create with
      | .ok (state, user) => { s.setCall i (.wrote user) with state, userSequence := user.id }
      | .error _ => s.setCall i .failed
  | .deleteUser id =>
      match deleteUser s.state id with
      | .ok state => { s.setCall i (.deleted id) with state }
      | .error _ => s.setCall i .failed
  | .listUsers find =>
      match listUsers engine s.state find with
      | .ok list => s.setCall i (.filling (.listUsers find) list list)
      | .error _ => s.setCall i .failed
  | .getUser find =>
      match listUsers engine s.state find with
      -- Each row is cached by the listing, and the first of them once more.
      | .ok list => s.setCall i (.filling (.getUser find) list (list ++ list.take 1))
      | .error _ => s.setCall i .failed

def cached (s : Server) (find : FindUser) : Option UserRow := find.id.bind s.cache

def runCall (engine : Engine) (s : Server) (i : Nat) (now : Int) : Call → Option Server
  | .called (.getUser find) =>
      match cached s find with
      | some user => some (s.setCall i (.found find (some user)))
      | none => some (s.setCall i (.missed find))
  | .called request => some (execute engine s i now request)
  | .missed find => some (execute engine s i now (.getUser find))
  | .filling request list (user :: fills) =>
      some ((s.setCache user).setCall i (.filling request list fills))
  | .filling request list [] => some (s.setCall i (answer list request))
  | .wrote user => some ((s.setCache user).setCall i .finished)
  | .deleted id =>
      some { s.setCall i .finished with
        cache := fun other => if other = id then none else s.cache other }
  | .listed _ _ | .found _ _ | .finished | .failed => none

def failCall (s : Server) (i : Nat) : Call → Option Server
  | .called _ | .missed _ => some (s.setCall i .failed)
  | _ => none

def step (engine : Engine) (s : Server) : Action → Option Server
  | .call request => some { s with calls := s.calls ++ [.called request] }
  | .run i now => s.calls[i]?.bind (runCall engine s i now)
  | .fail i => s.calls[i]?.bind (failCall s i)
  | .evict id => some { s with cache := fun other => if other = id then none else s.cache other }
  | .elsewhere state => some { s with state := { state with users := s.state.users } }

end Memos.Store.Users

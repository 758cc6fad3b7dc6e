/-
When the cache tells the truth about users.

A call that has written a row owes the cache a step: until it has made it, the entry may be
older than the row.  If every call that puts a user into the cache either puts in what the
table holds at that moment, or leaves the entry to another call that still owes it a step,
then a wrong entry always has somebody who will mend it, and when all calls are over no
entry is wrong.  A reader that was overtaken by a writer, and a writer that was overtaken by
another one, break this.

That an entry is right does not make it the answer to every question: a user taken from
the cache is checked for nothing but the id.
-/
import Memos.Store.UserCache
import Memos.Proofs.Store.Spaces

namespace Memos.Store.Users

open Runs Debts

/-! ### The statements -/

theorem updateUser_spec {state state' : State} {update : UpdateUser} {user : UserRow}
    (h : updateUser state update = .ok (state', user)) :
    user.id = update.id ∧ ∀ id, id ≠ update.id →
      state'.users.find? id = state.users.find? id := by
  refine ⟨?_, fun id other => ?_⟩
  · simp only [updateUser, bind_eq_ok, pure_eq_ok, Prod.mk.injEq, orElse_eq_ok] at h
    obtain ⟨_, -, _, -, users, -, _, found, -, rfl⟩ := h
    exact (Keyed.Table.find?_eq_some.mp found).2
  · rw [find?_updateUser h id]
    simp only [if_neg other, Option.map_id']

theorem createUser_spec {state state' : State} {userSequence now : Int} {create : CreateUser}
    {user : UserRow} (h : createUser state userSequence now create = .ok (state', user)) (id : Int)
    (other : id ≠ user.id) : state'.users.find? id = state.users.find? id := by
  simp only [createUser, bind_eq_ok, pure_eq_ok, Prod.mk.injEq] at h
  obtain ⟨users, husers, rfl, rfl⟩ := h
  show users.find? id = _
  rw [Keyed.Table.find?, Keyed.Table.rows_of_ofRows (of_constrained husers), List.find?_append,
    List.find?_singleton, if_neg, Option.or_none]
  · rfl
  · rw [decide_eq_true_eq]
    exact fun same => other same.symm

theorem deleteUser_spec {state state' : State} {userID : Int}
    (h : deleteUser state userID = .ok state') (id : Int) (other : id ≠ userID) :
    state'.users.find? id = state.users.find? id := by
  rw [deleteUser] at h
  by_cases missing : (state.users.find? userID).isNone = true
  · rw [if_pos missing, pure_eq_ok] at h
    rw [h]
  · rw [if_neg missing] at h
    simp only [bind_eq_ok, pure_eq_ok, require_eq_ok] at h
    obtain ⟨_, -, rfl⟩ := h
    refine Keyed.Table.find?_delete fun u _ key => ?_
    have key : u.id = id := key
    rw [key]
    exact decide_eq_false other

/-! ### Answers -/

/-- The user meets all criteria. -/
def Satisfies (engine : Engine) (find : FindUser) (user : UserRow) : Prop :=
  find.filters = [] ∧ find.matches engine user = true

theorem satisfies_of_listUsers {engine : Engine} {state : State} {find : FindUser}
    {list : List UserRow} (h : listUsers engine state find = .ok list) :
    ∀ user ∈ list, Satisfies engine find user := by
  unfold listUsers at h
  simp only [bind_eq_ok, require_eq_ok, pure_eq_ok] at h
  obtain ⟨_, supported, rfl⟩ := h
  intro user listed
  refine ⟨List.isEmpty_iff.mp supported, ?_⟩
  have selected : user ∈ (state.users.select (find.matches engine)).insertionSort fun a b =>
      order engine find a b ≠ .gt := by
    unfold page at listed
    split at listed
    · exact listed
    · split at listed
      · exact List.mem_of_mem_drop listed
      · exact List.mem_of_mem_drop (List.mem_of_mem_take listed)
  rw [List.mem_insertionSort] at selected
  exact (Keyed.Table.mem_select.mp selected).2

/-- The query asks for an id and for nothing else. -/
def FindUser.onlyID (find : FindUser) : Bool :=
  find.idList.isEmpty && find.usernameList.isEmpty && find.rowStatus.isNone
    && find.username.isNone && find.role.isNone && find.email.isNone && find.nickname.isNone
    && find.search.isNone && find.filters.isEmpty

theorem satisfies_of_onlyID {engine : Engine} {find : FindUser} (only : find.onlyID = true)
    {user : UserRow} (id : find.id = some user.id) : Satisfies engine find user := by
  simp only [FindUser.onlyID, Bool.and_eq_true, Option.isNone_iff_eq_none, List.isEmpty_iff] at only
  obtain ⟨⟨⟨⟨⟨⟨⟨⟨idList, usernameList⟩, rowStatus⟩, username⟩, role⟩, email⟩, nickname⟩, search⟩,
    filters⟩ := only
  refine ⟨filters, ?_⟩
  unfold FindUser.matches FindUser.matchesRest FindUser.query
  rw [id, idList, usernameList, rowStatus, username, role, email, nickname, search]
  simp

/-! ### What a call owes the cache -/

/-- The call has written the row of the user and not yet the entry. -/
def Call.owes (id : Int) : Call → Bool
  | .wrote user => decide (user.id = id)
  | .deleted other => decide (other = id)
  | _ => false

/-- The user is what the table holds, or another call still owes the entry a step. -/
def settled (s : Server) (i : Nat) (user : UserRow) : Bool :=
  decide (s.state.users.find? user.id = some user) || (s.calls.eraseIdx i).any (Call.owes user.id)

/-- No call spoils an entry, and the cache answers only for an id. -/
def careful (s : Server) : Action → Bool
  | .run i _ =>
      match s.calls[i]? with
      | some (.filling _ _ (user :: _)) => settled s i user
      | some (.wrote user) => settled s i user
      | some (.called (.getUser find)) => (cached s find).isNone || find.onlyID
      | _ => true
  | _ => true

def Careful (s : Server) (a : Action) : Prop := careful s a = true

instance (s : Server) (a : Action) : Decidable (Careful s a) :=
  inferInstanceAs (Decidable (careful s a = true))

/-! ### Steps -/

/-- The entry is as the row is, or missing, or about to be put right. -/
def Fresh (s : Server) (id : Int) : Prop :=
  s.cache id = none ∨ s.cache id = s.state.users.find? id ∨ Owed (Call.owes id) s.calls

/-- What a call of `GetUser` has got is what was asked for. -/
def Right (engine : Engine) : Call → Prop
  | .filling (.getUser find) list _ => ∀ user ∈ list, Satisfies engine find user
  | .found find (some user) => Satisfies engine find user
  | _ => True

structure Inv (engine : Engine) (s : Server) : Prop where
  fresh : ∀ id, Fresh s id
  keyed : ∀ id user, s.cache id = some user → user.id = id
  right : ∀ call ∈ s.calls, Right engine call

section Steps

variable {engine : Engine} {s : Server} {i : Nat} {call call' : Call}

theorem Inv.right_set (inv : Inv engine s) (right : Right engine call') :
    ∀ other ∈ s.calls.set i call', Right engine other := forall_set inv.right right

/-- A call that leaves the cache alone: it may change rows whose entries it owes. -/
theorem Inv.statement (inv : Inv engine s) (here : s.calls[i]? = some call)
    (right : Right engine call') {state : State} {userSequence : Int}
    (kept : ∀ id, call'.owes id = true ∨
      (call.owes id = false ∧ state.users.find? id = s.state.users.find? id)) :
    Inv engine { s.setCall i call' with state, userSequence } := by
  refine ⟨fun id => ?_, inv.keyed, inv.right_set right⟩
  rcases kept id with owes | ⟨quiet, same⟩
  · exact .inr (.inr (Owed.self here owes))
  · rcases inv.fresh id with missing | current | owed
    · exact .inl missing
    · exact .inr (.inl (current.trans same.symm))
    · refine .inr (.inr (owed.set here fun owes => ?_))
      rw [quiet] at owes
      cases owes

theorem Inv.quiet (inv : Inv engine s) (here : s.calls[i]? = some call)
    (right : Right engine call') (kept : ∀ id, call.owes id = false) :
    Inv engine (s.setCall i call') :=
  inv.statement here right fun id => .inr ⟨kept id, rfl⟩

theorem Inv.failed (inv : Inv engine s) (here : s.calls[i]? = some call)
    (kept : ∀ id, call.owes id = false) : Inv engine (s.setCall i .failed) :=
  inv.quiet here trivial kept

/-- A user is put into the cache. -/
theorem Inv.fill (inv : Inv engine s) (here : s.calls[i]? = some call) (right : Right engine call')
    {user : UserRow} (ok : settled s i user = true)
    (kept : ∀ id, id ≠ user.id → call.owes id = false) :
    Inv engine ((s.setCache user).setCall i call') := by
  refine ⟨fun id => ?_, fun id other entry => ?_, inv.right_set right⟩
  · by_cases same : id = user.id
    · have entry : (s.setCache user).cache id = some user := if_pos same
      unfold settled at ok
      rw [Bool.or_eq_true, decide_eq_true_eq, List.any_eq_true] at ok
      rcases ok with current | owed
      · refine .inr (.inl (entry.trans ?_))
        rw [same]
        exact current.symm
      · rw [same]
        exact .inr (.inr (Owed.of_others owed))
    · have entry : (s.setCache user).cache id = s.cache id := if_neg same
      rcases inv.fresh id with missing | current | owed
      · exact .inl (entry.trans missing)
      · exact .inr (.inl (entry.trans current))
      · refine .inr (.inr (owed.set here fun owes => ?_))
        rw [kept id same] at owes
        cases owes
  · have entry : (if id = user.id then some user else s.cache id) = some other := entry
    split at entry
    · rename_i same
      injection entry with entry
      rw [← entry]
      exact same.symm
    · exact inv.keyed id other entry

/-- The cache without an entry. -/
theorem Inv.drop (inv : Inv engine s) (k : Int) :
    Inv engine { s with cache := fun other => if other = k then none else s.cache other } := by
  refine ⟨fun id => ?_, fun id other entry => ?_, inv.right⟩
  · by_cases same : id = k
    · exact .inl (if_pos same)
    · have entry : (if id = k then none else s.cache id) = s.cache id := if_neg same
      rcases inv.fresh id with missing | current | owed
      · exact .inl (entry.trans missing)
      · exact .inr (.inl (entry.trans current))
      · exact .inr (.inr owed)
  · have entry : (if id = k then none else s.cache id) = some other := entry
    split at entry
    · cases entry
    · exact inv.keyed id other entry

theorem Inv.delete (inv : Inv engine s) {k : Int} (here : s.calls[i]? = some (.deleted k)) :
    Inv engine { s.setCall i .finished with
      cache := fun other => if other = k then none else s.cache other } := by
  refine ⟨fun id => ?_, (inv.drop k).keyed, inv.right_set trivial⟩
  by_cases same : id = k
  · exact .inl (if_pos same)
  · rcases (inv.drop k).fresh id with missing | current | owed
    · exact .inl missing
    · exact .inr (.inl current)
    · refine .inr (.inr (Owed.set owed here fun owes => ?_))
      exact absurd (decide_eq_true_eq.mp owes).symm same

/-- The statement of a call. -/
theorem Inv.execute (inv : Inv engine s) (here : s.calls[i]? = some call)
    (kept : ∀ id, call.owes id = false) (now : Int) (request : Request) :
    Inv engine (execute engine s i now request) := by
  cases request with
  | updateUser update =>
      unfold Users.execute
      dsimp only
      split
      · rename_i state user updated
        obtain ⟨written, others⟩ := updateUser_spec updated
        refine inv.statement here (by trivial) fun id => ?_
        by_cases same : user.id = id
        · exact .inl (decide_eq_true same)
        · exact .inr ⟨kept id, others id fun other => same (written.trans other.symm)⟩
      · exact inv.failed here kept
  | createUser create =>
      unfold Users.execute
      dsimp only
      split
      · rename_i state user created
        refine inv.statement here (by trivial) fun id => ?_
        by_cases same : user.id = id
        · exact .inl (decide_eq_true same)
        · exact .inr ⟨kept id, createUser_spec created id fun other => same other.symm⟩
      · exact inv.failed here kept
  | deleteUser k =>
      unfold Users.execute
      dsimp only
      split
      · rename_i state deleted
        refine inv.statement here (by trivial) fun id => ?_
        by_cases same : k = id
        · exact .inl (decide_eq_true same)
        · exact .inr ⟨kept id, deleteUser_spec deleted id fun other => same other.symm⟩
      · exact inv.failed here kept
  | listUsers find =>
      unfold Users.execute
      dsimp only
      split
      · exact inv.quiet here trivial kept
      · exact inv.failed here kept
  | getUser find =>
      unfold Users.execute
      dsimp only
      split
      · rename_i list listed
        exact inv.quiet here (satisfies_of_listUsers listed) kept
      · exact inv.failed here kept

theorem right_answer {request : Request} {list : List UserRow}
    (right : Right engine (.filling request list [])) : Right engine (answer list request) := by
  cases request with
  | getUser find =>
      cases list with
      | nil => trivial
      | cons user list => exact right user List.mem_cons_self
  | updateUser update => trivial
  | createUser create => trivial
  | deleteUser id => trivial
  | listUsers find => trivial

theorem Inv.cached (inv : Inv engine s) {find : FindUser} {user : UserRow}
    (entry : cached s find = some user) (only : find.onlyID = true) :
    Satisfies engine find user := by
  obtain ⟨id, asked, entry⟩ := Option.bind_eq_some_iff.mp entry
  refine satisfies_of_onlyID only ?_
  rw [asked, inv.keyed id user entry]

theorem Inv.runCall (inv : Inv engine s) {now : Int} (here : s.calls[i]? = some call)
    (ok : Careful s (.run i now)) {s' : Server} (h : runCall engine s i now call = some s') :
    Inv engine s' := by
  have right : Right engine call := inv.right call (List.mem_of_getElem? here)
  unfold Careful careful at ok
  dsimp only at ok
  rw [here] at ok
  cases call with
  | called request =>
      cases request with
      | getUser find =>
          unfold Users.runCall at h
          dsimp only at h ok
          split at h
          · rename_i user entry
            injection h with h
            rw [← h]
            rw [entry] at ok
            exact inv.quiet here (inv.cached entry ok) fun _ => rfl
          · injection h with h
            rw [← h]
            exact inv.quiet here trivial fun _ => rfl
      | updateUser update =>
          injection h with h
          exact h ▸ inv.execute here (fun _ => rfl) now (.updateUser update)
      | createUser create =>
          injection h with h
          exact h ▸ inv.execute here (fun _ => rfl) now (.createUser create)
      | deleteUser id =>
          injection h with h
          exact h ▸ inv.execute here (fun _ => rfl) now (.deleteUser id)
      | listUsers find =>
          injection h with h
          exact h ▸ inv.execute here (fun _ => rfl) now (.listUsers find)
  | missed find =>
      injection h with h
      exact h ▸ inv.execute here (fun _ => rfl) now (.getUser find)
  | filling request list fills =>
      cases fills with
      | nil =>
          injection h with h
          exact h ▸ inv.quiet here (right_answer right) fun _ => rfl
      | cons user fills =>
          have right' : Right engine (.filling request list fills) := by
            cases request with
            | getUser find => exact right
            | updateUser update => trivial
            | createUser create => trivial
            | deleteUser id => trivial
            | listUsers find => trivial
          injection h with h
          exact h ▸ inv.fill here right' ok fun _ _ => rfl
  | wrote user =>
      injection h with h
      exact h ▸ inv.fill here (by trivial) ok fun id other => decide_eq_false (Ne.symm other)
  | deleted id =>
      injection h with h
      exact h ▸ inv.delete here
  | listed find list => cases h
  | found find user => cases h
  | finished => cases h
  | failed => cases h

theorem Inv.failCall (inv : Inv engine s) (here : s.calls[i]? = some call) {s' : Server}
    (h : failCall s i call = some s') : Inv engine s' := by
  cases call with
  | called request | missed find =>
      injection h with h
      exact h ▸ inv.failed here fun _ => rfl
  | filling request list fills => cases h
  | wrote user => cases h
  | deleted id => cases h
  | listed find list => cases h
  | found find user => cases h
  | finished => cases h
  | failed => cases h

theorem Inv.step (inv : Inv engine s) {a : Action} (ok : Careful s a) {s' : Server}
    (h : step engine s a = some s') : Inv engine s' := by
  cases a with
  | call request =>
      injection h with h
      rw [← h]
      refine ⟨fun id => ?_, inv.keyed, fun other there => ?_⟩
      · rcases inv.fresh id with missing | current | ⟨other, there, owes⟩
        · exact .inl missing
        · exact .inr (.inl current)
        · exact .inr (.inr ⟨other, List.mem_append_left _ there, owes⟩)
      · rcases List.mem_append.mp there with there | there
        · exact inv.right other there
        · rw [List.mem_singleton.mp there]
          trivial
  | run i now =>
      obtain ⟨call, here, h⟩ := Option.bind_eq_some_iff.mp h
      exact inv.runCall here ok h
  | fail i =>
      obtain ⟨call, here, h⟩ := Option.bind_eq_some_iff.mp h
      exact inv.failCall here h
  | evict id =>
      injection h with h
      exact h ▸ inv.drop id
  | elsewhere state =>
      injection h with h
      exact h ▸ ⟨inv.fresh, inv.keyed, inv.right⟩

end Steps

/-! ### The result -/

def Call.ended : Call → Bool
  | .listed _ _ | .found _ _ | .finished | .failed => true
  | _ => false

theorem not_owed_of_ended {calls : List Call} (ended : ∀ call ∈ calls, call.ended = true) (id : Int) :
    ¬ Owed (Call.owes id) calls := by
  rintro ⟨call, there, owes⟩
  have ended := ended call there
  cases call with
  | wrote user => cases ended
  | deleted other => cases ended
  | _ => cases owes

/-- **When the cache of users can be trusted.**

Start with no call on its way and a cache whose entries are rows of the table.  Take any
run in which whoever puts a user into the cache puts in the row that is stored, or is
followed by another call that has written the row and has its own cache step to make, and
in which a user is taken from the cache only for a query by id alone.  Whenever all calls
are over the entry of an id is missing or the stored row, and at any time `GetUser` has
returned a user that meets all the criteria. -/
theorem cache_trusted (engine : Engine) {s t : Server} (idle : s.calls = [])
    (fresh : ∀ id, s.cache id = none ∨ s.cache id = s.state.users.find? id)
    (run : Run (step engine) Careful s t) :
    ((∀ call ∈ t.calls, call.ended = true) →
      ∀ id, t.cache id = none ∨ t.cache id = t.state.users.find? id) ∧
    ∀ find user, .found find (some user) ∈ t.calls → Satisfies engine find user := by
  have keyed : ∀ id user, s.cache id = some user → user.id = id := by
    intro id user entry
    rcases fresh id with missing | current
    · rw [missing] at entry
      cases entry
    · exact (Keyed.Table.find?_eq_some.mp (current.symm.trans entry)).2
  have start : Inv engine s := by
    refine ⟨fun id => ?_, keyed, fun call there => ?_⟩
    · rcases fresh id with missing | current
      · exact .inl missing
      · exact .inr (.inl current)
    · rw [idle] at there
      exact absurd there List.not_mem_nil
  have inv : Inv engine t := run.invariant start fun _ _ _ inv ok next => inv.step ok next
  refine ⟨fun ended id => ?_, fun find user there => inv.right _ there⟩
  rcases inv.fresh id with missing | current | owed
  · exact .inl missing
  · exact .inr current
  · exact absurd owed (not_owed_of_ended ended id)

/-! ### Tom is archived while somebody looks at him -/

def ascii : Engine where
  lower := String.toLower
  like text pattern := text = pattern
  toLower := String.toLower
  trimSpace := id

def coldServer : Server where
  state := twoUsers
  userSequence := 2
  cache _ := none
  calls := []

def archiveTom : Request :=
  .updateUser
    { id := 2, updatedTs := some 90, rowStatus := some .Archived, username := none, role := none,
      email := none, nickname := none, avatarURL := none, passwordHash := none, description := none }

def findTom : FindUser := { id := some 2 }

def lookThenArchive : List Action :=
  [.call (.getUser findTom), .call archiveTom, .run 0 1, .run 0 1, .run 0 1, .run 0 1, .run 0 1,
    .run 1 2, .run 1 3]

theorem cache_trusted_archived : ∃ t,
    follow (step ascii) Careful coldServer lookThenArchive = some t ∧
    (∀ call ∈ t.calls, call.ended = true) ∧
    (t.cache 2).map UserRow.rowStatus = some .Archived ∧
    (∀ id, t.cache id = none ∨ t.cache id = t.state.users.find? id) ∧
    ∀ find user, .found find (some user) ∈ t.calls → Satisfies ascii find user := by
  obtain ⟨t, follows, ended, archived⟩ : ∃ t,
      follow (step ascii) Careful coldServer lookThenArchive = some t ∧
      t.calls.all Call.ended = true ∧ (t.cache 2).map UserRow.rowStatus = some .Archived :=
    ⟨_, rfl, rfl, rfl⟩
  obtain ⟨trusted, right⟩ :=
    cache_trusted ascii (s := coldServer) rfl (fun _ => .inl rfl) (run_of_follow follows)
  have ended := List.all_eq_true.mp ended
  exact ⟨t, follows, ended, archived, trusted ended, right⟩

/-- The reader has queried when the row is written, and fills the cache afterwards. -/
def lookWhileArchiving : List Action :=
  [.call (.getUser findTom), .call archiveTom, .run 0 1, .run 0 1, .run 1 2, .run 1 3, .run 0 4,
    .run 0 4, .run 0 4]

/-- A later call asks for Tom if he is not archived. -/
def findActiveTom : FindUser := { id := some 2, rowStatus := some .Normal }

/-- In the one order the cache keeps the row of before; in the other it holds the archived
row, and hands it to a query for active users. -/
theorem stale_user_cached :
    (∃ t, follow (step ascii) (fun _ _ => True) coldServer lookWhileArchiving = some t ∧
      (∀ call ∈ t.calls, call.ended = true) ∧
      (t.cache 2).map UserRow.rowStatus = some .Normal ∧
      (t.state.users.find? 2).map UserRow.rowStatus = some .Archived) ∧
    ∃ t user, follow (step ascii) (fun _ _ => True) coldServer
        (lookThenArchive ++ [.call (.getUser findActiveTom), .run 2 5]) = some t ∧
      .found findActiveTom (some user) ∈ t.calls ∧ user.rowStatus = .Archived ∧
      findActiveTom.matches ascii user = false := by
  refine ⟨⟨_, rfl, List.all_eq_true.mp rfl, rfl, rfl⟩, ?_⟩
  refine ⟨_, _, rfl, List.mem_of_getElem? (i := 2) rfl, rfl, rfl⟩

end Memos.Store.Users

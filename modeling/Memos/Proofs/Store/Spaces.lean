/-
Every Space keeps an administrator.

The abstract side is `Guarded`: a live index is an existing Space, and its holders are
the users whom some row makes an active administrator of it.  What has to be shown of
each operation is that its commit is a step there, and this is where the guards are
used: a count of more than one row is a second row, which by the primary key belongs to
another user, and the search `wouldLoseAdmin` is the negation of the guard for all
Spaces of the user at once.

The steps say nothing about how the tables got there, so each operation is first
inverted: what is known of the database before, and which rows are in it after.
-/
import Memos.Store.Spaces
import Memos.Lib.Guarded

namespace Memos.Store

theorem requireActiveUser_eq_ok {state : State} {userID : Int} {u : Unit} :
    requireActiveUser state userID = .ok u ↔ state.normalUser userID = true := by
  rw [State.normalUser, show (state.users.any fun u => decide (u.id = userID)
    && decide (u.rowStatus = .Normal)) = _ from Keyed.Table.any_key]
  simp only [requireActiveUser, bind_eq_ok, orElse_eq_ok, require_eq_ok]
  cases state.users.find? userID with
  | none => simp
  | some row => simp

theorem memberIn_eq_some {state : State} {spaceID userID : Int} {status : SpaceMemberStatus}
    {sm : SpaceMemberRow} (h : memberIn state spaceID userID status = some sm) :
    sm ∈ state.members ∧ sm.spaceID = spaceID ∧ sm.userID = userID ∧ sm.status = status := by
  have mem := List.mem_of_mem_head? h
  simpa [and_assoc] using mem

/-! ### The administrators of a database -/

/-- The Spaces and, for each, the users that administer it. -/
def State.administration (state : State) : Guarded.Family Int Int where
  live := {spaceID | ∃ space ∈ state.spaces, space.id = spaceID}
  holders spaceID := {userID | ∃ sm ∈ state.members,
    state.isActiveAdmin spaceID sm = true ∧ sm.userID = userID}

theorem isActiveAdmin_iff {state : State} {spaceID : Int} {sm : SpaceMemberRow} :
    state.isActiveAdmin spaceID sm = true ↔
      sm.spaceID = spaceID ∧ sm.status = .Active ∧ sm.role = .Admin
        ∧ state.normalUser sm.userID = true := by
  simp [State.isActiveAdmin, and_assoc]

/-- An administrator stays one if the row that makes them one does, and their user row. -/
theorem holders_subset {state state' : State} {spaceID : Int}
    (kept : ∀ sm ∈ state.members, sm.spaceID = spaceID → sm.status = .Active → sm.role = .Admin →
      state.normalUser sm.userID = true → sm ∈ state'.members ∧ state'.normalUser sm.userID = true) :
    state.administration.holders spaceID ⊆ state'.administration.holders spaceID := by
  rintro userID ⟨sm, hsm, admin, rfl⟩
  obtain ⟨space, active, role, normal⟩ := isActiveAdmin_iff.mp admin
  obtain ⟨stays, normal'⟩ := kept sm hsm space active role normal
  exact ⟨sm, stays, isActiveAdmin_iff.mpr ⟨space, active, role, normal'⟩, rfl⟩

/-- The count in a last-admin guard is worth an administrator besides the target. -/
theorem exists_other_admin {state : State} {spaceID : Int}
    (many : 1 < state.activeAdminCount spaceID) (userID : Int) :
    ∃ other ∈ state.administration.holders spaceID, other ≠ userID := by
  obtain ⟨sm, hsm, admin, hne⟩ := Keyed.Table.exists_other many (spaceID, userID)
  refine ⟨sm.userID, ⟨sm, hsm, admin, rfl⟩, fun same => hne ?_⟩
  show (sm.spaceID, sm.userID) = _
  rw [(isActiveAdmin_iff.mp admin).1, same]

/-! ### The operations as steps -/

theorem createSpace_step {state state' : State} {create space : Space} {creatorID : Int}
    (h : createSpace state create creatorID = .ok (state', space)) :
    Guarded.Step state.administration state'.administration := by
  simp only [createSpace, bind_eq_ok, pure_eq_ok, Prod.mk.injEq] at h
  obtain ⟨_, active, spaces, hspaces, members, hmembers, rfl, -⟩ := h
  have hspaces := of_constrained hspaces
  have hmembers := of_constrained hmembers
  rw [requireActiveUser_eq_ok] at active
  refine .create (nextID state.spaceSequence (state.spaces.rows.map SpaceRow.id)) creatorID ?_ ?_
  · refine ⟨_, (Keyed.Table.mem_insert hmembers).mpr (.inr rfl), ?_, rfl⟩
    rw [isActiveAdmin_iff]
    exact ⟨rfl, rfl, rfl, active⟩
  · rintro spaceID ⟨row, hrow, rfl⟩ other
    refine ⟨⟨row, ?_, rfl⟩, ?_⟩
    · rcases (Keyed.Table.mem_insert hspaces).mp hrow with old | new
      · exact old
      · exact absurd (by rw [new]) other
    · refine holders_subset fun sm hsm _ _ _ normal => ⟨?_, normal⟩
      exact (Keyed.Table.mem_insert hmembers).mpr (.inl hsm)

/-- An operation that keeps Spaces, users and all active rows of administrators. -/
theorem keep_of_active_rows {state : State} {members : Keyed.Table SpaceMemberRow.schema}
    (kept : ∀ sm ∈ state.members, sm.status = .Active → sm.role = .Admin → sm ∈ members) :
    Guarded.Step state.administration { state with members }.administration :=
  .keep fun _ live => ⟨live, holders_subset fun sm hsm _ active role normal =>
    ⟨kept sm hsm active role, normal⟩⟩

theorem createSpaceInvitation_step {state state' : State} {create result : SpaceInvitation}
    {actorUserID : Int}
    (h : createSpaceInvitation state create actorUserID = .ok (state', result)) :
    Guarded.Step state.administration state'.administration := by
  simp only [createSpaceInvitation, bind_eq_ok, pure_eq_ok, Prod.mk.injEq] at h
  obtain ⟨_, -, _, -, members, hmembers, rfl, -⟩ := h
  exact keep_of_active_rows fun sm hsm _ _ =>
    (Keyed.Table.mem_insert (of_constrained hmembers)).mpr (.inl hsm)

theorem acceptSpaceInvitation_step {state state' : State} {spaceID userID actorUserID : Int}
    {member : SpaceMember}
    (h : acceptSpaceInvitation state spaceID userID actorUserID = .ok (state', member)) :
    Guarded.Step state.administration state'.administration := by
  simp only [acceptSpaceInvitation, bind_eq_ok, pure_eq_ok, Prod.mk.injEq] at h
  obtain ⟨_, -, _, -, members, hmembers, _, -, rfl, -⟩ := h
  refine keep_of_active_rows fun sm hsm active _ => ?_
  refine (Keyed.Table.mem_update (of_constrained hmembers)).mpr ⟨sm, hsm, ?_⟩
  -- The update selects invitations, and this row is active.
  rw [if_neg (by simp [acceptable, active])]

theorem deleteInvitation_step {state state' : State} {spaceID userID : Int}
    (h : deleteInvitation state spaceID userID = .ok state') :
    Guarded.Step state.administration state'.administration := by
  simp only [deleteInvitation, bind_eq_ok, pure_eq_ok] at h
  obtain ⟨_, -, rfl⟩ := h
  refine keep_of_active_rows fun sm hsm active _ => ?_
  exact Keyed.Table.mem_delete.mpr ⟨hsm, by simp [invitation, active]⟩

theorem declineSpaceInvitation_step {state state' : State} {spaceID userID actorUserID : Int}
    (h : declineSpaceInvitation state spaceID userID actorUserID = .ok state') :
    Guarded.Step state.administration state'.administration := by
  simp only [declineSpaceInvitation, bind_eq_ok] at h
  obtain ⟨_, -, _, -, h⟩ := h
  exact deleteInvitation_step h

theorem revokeSpaceInvitation_step {state state' : State} {spaceID userID actorUserID : Int}
    (h : revokeSpaceInvitation state spaceID userID actorUserID = .ok state') :
    Guarded.Step state.administration state'.administration := by
  simp only [revokeSpaceInvitation, bind_eq_ok] at h
  obtain ⟨_, -, h⟩ := h
  exact deleteInvitation_step h

/-- An operation that takes one administrator's rights in one Space, or gives some. -/
theorem remove_of_other_rows {state : State} {members : Keyed.Table SpaceMemberRow.schema}
    {spaceID userID : Int}
    (guard : userID ∈ state.administration.holders spaceID →
      ∃ other ∈ state.administration.holders spaceID, other ≠ userID)
    (kept : ∀ sm ∈ state.members, sm.status = .Active →
      sm.spaceID ≠ spaceID ∨ sm.userID ≠ userID → sm ∈ members) :
    Guarded.Step state.administration { state with members }.administration := by
  by_cases held : userID ∈ state.administration.holders spaceID
  · refine .remove userID {spaceID} ?_ ?_
    · rintro i live rfl
      exact guard held
    · intro i live
      refine ⟨live, ?_⟩
      rintro b ⟨sm, hsm, admin, rfl⟩ stays
      have row := isActiveAdmin_iff.mp admin
      refine ⟨sm, kept sm hsm row.2.1 ?_, admin, rfl⟩
      rcases stays with other | outside
      · exact .inr other
      · exact .inl fun same => outside (row.1.symm.trans same)
  · refine .keep fun i live => ⟨live, ?_⟩
    rintro b ⟨sm, hsm, admin, rfl⟩
    have row := isActiveAdmin_iff.mp admin
    refine ⟨sm, kept sm hsm row.2.1 ?_, admin, rfl⟩
    by_contra both
    push Not at both
    refine held ⟨sm, hsm, ?_, both.2⟩
    rw [← both.1, row.1]
    exact admin

theorem current_of_held {state : State} {spaceID userID : Int} {current : SpaceMemberRow}
    (found : memberIn state spaceID userID .Active = some current)
    (held : userID ∈ state.administration.holders spaceID) :
    current.role = .Admin ∧ state.normalUser userID = true := by
  obtain ⟨sm, hsm, admin, rfl⟩ := held
  obtain ⟨space, -, role, normal⟩ := isActiveAdmin_iff.mp admin
  obtain ⟨hcurrent, hspace, huser, -⟩ := memberIn_eq_some found
  have same : sm = current := by
    refine Keyed.Table.eq_of_key hsm hcurrent ?_
    show (sm.spaceID, sm.userID) = (current.spaceID, current.userID)
    rw [space, hspace, huser]
  exact ⟨same ▸ role, normal⟩

theorem updateSpaceMember_step {state state' : State} {update : UpdateSpaceMember}
    {actorUserID : Int} {member : SpaceMember}
    (h : updateSpaceMember state update actorUserID = .ok (state', member)) :
    Guarded.Step state.administration state'.administration := by
  simp only [updateSpaceMember, bind_eq_ok, pure_eq_ok, Prod.mk.injEq, onlyIf_eq_ok,
    require_eq_ok, orElse_eq_ok] at h
  obtain ⟨_, -, _, -, current, found, _, guarded, role, given, members, hmembers, rfl, -⟩ := h
  have hmembers := of_constrained hmembers
  by_cases admin : role = .Admin
  · -- A promotion, or no change: an administrator's row is written back as it was.
    refine keep_of_active_rows fun sm hsm _ hrole => ?_
    refine (Keyed.Table.mem_update hmembers).mpr ⟨sm, hsm, ?_⟩
    split
    · rw [admin, ← hrole]
    · rfl
  · refine remove_of_other_rows
      (?_ : update.userID ∈ state.administration.holders update.spaceID → _) ?_
    · intro held
      have demotes : current.role = .Admin := (current_of_held found held).1
      have many := guarded (by simp [demotes, given, admin])
      exact exists_other_admin (by simpa using many) update.userID
    · intro sm hsm _ other
      refine (Keyed.Table.mem_update hmembers).mpr ⟨sm, hsm, ?_⟩
      rw [if_neg]
      simp only [activeMember, Bool.and_eq_true, decide_eq_true_eq]
      tauto

theorem deleteSpaceMember_step {state state' : State} {delete : DeleteSpaceMember}
    {actorUserID : Int} (h : deleteSpaceMember state delete actorUserID = .ok state') :
    Guarded.Step state.administration state'.administration := by
  simp only [deleteSpaceMember, bind_eq_ok, pure_eq_ok, onlyIf_eq_ok, require_eq_ok,
    orElse_eq_ok] at h
  obtain ⟨_, -, _, -, target, found, _, guarded, rfl⟩ := h
  refine remove_of_other_rows
    (?_ : delete.userID ∈ state.administration.holders delete.spaceID → _) ?_
  · intro held
    obtain ⟨admin, normal⟩ := current_of_held found held
    obtain ⟨-, -, user, -⟩ := memberIn_eq_some found
    have status : (state.users.find? target.userID).map UserRow.rowStatus = some .Normal := by
      rw [← requireActiveUser_eq_ok (u := ())] at normal
      simp only [requireActiveUser, bind_eq_ok, orElse_eq_ok, require_eq_ok] at normal
      obtain ⟨row, hrow, hnormal⟩ := normal
      rw [user, hrow]
      simpa using hnormal
    have many := guarded (by simp [admin, status])
    exact exists_other_admin (by simpa using many) delete.userID
  · intro sm hsm _ other
    refine Keyed.Table.mem_delete.mpr ⟨hsm, ?_⟩
    simp only [activeMember, Bool.and_eq_false_iff, decide_eq_false_iff_not]
    tauto

theorem deleteSpace_step {state state' : State} {delete : DeleteSpace}
    (h : deleteSpace state delete = .ok state') :
    Guarded.Step state.administration state'.administration := by
  simp only [deleteSpace, bind_eq_ok, pure_eq_ok, require_eq_ok] at h
  obtain ⟨_, -, _, -, rfl⟩ := h
  refine .keep ?_
  rintro _ ⟨space, hspace, rfl⟩
  obtain ⟨old, survives⟩ := Keyed.Table.mem_delete.mp hspace
  have other : space.id ≠ delete.id := by simpa using survives
  refine ⟨⟨space, old, rfl⟩, holders_subset fun sm hsm here _ _ normal => ⟨?_, normal⟩⟩
  exact Keyed.Table.mem_delete.mpr ⟨hsm, by simpa [here] using other⟩

/-! ### Users

Archiving takes a user out of every Space at once.  The other users are untouched, and
a write that does not archive leaves a normal user normal, since the column admits no
third value.
-/

theorem normalUser_iff {state : State} {userID : Int} :
    state.normalUser userID = true ↔ ∃ u ∈ state.users, u.id = userID ∧ u.rowStatus = .Normal := by
  simp [State.normalUser]

/-- An update leaves a user in status `NORMAL` there unless it is theirs and archives. -/
theorem normalUser_update {state : State} {update : UpdateUser}
    {users : Keyed.Table UserRow.schema}
    (husers : state.users.update (fun u => decide (u.id = update.id)) update.apply = .ok users)
    {userID : Int} (normal : state.normalUser userID = true)
    (kept : userID ≠ update.id ∨ update.rowStatus ≠ some .Archived) :
    { state with users }.normalUser userID = true := by
  obtain ⟨u, hu, rfl, status⟩ := normalUser_iff.mp normal
  rw [normalUser_iff]
  by_cases target : u.id = update.id
  · have written : update.apply u ∈ users :=
      (Keyed.Table.mem_update husers).mpr ⟨u, hu, by simp [target]⟩
    refine ⟨update.apply u, written, rfl, ?_⟩
    have checked := users.checked _ written
    have archives := kept.resolve_left (by simp [target])
    simp only [UserRow.schema, UpdateUser.apply, decide_eq_true_eq] at checked ⊢
    cases hstatus : update.rowStatus with
    | none => exact status
    | some next =>
        cases next with
        | Normal => rfl
        | Archived => exact absurd hstatus archives
        | unrecognised => exact absurd (by rw [hstatus]; rfl) checked
  · exact ⟨u, (Keyed.Table.mem_update husers).mpr ⟨u, hu, by simp [target]⟩, rfl, status⟩

theorem find?_updateUser {state state' : State} {update : UpdateUser} {user : UserRow}
    (h : updateUser state update = .ok (state', user)) (id : Int) :
    state'.users.find? id
      = (state.users.find? id).map fun u => if id = update.id then update.apply u else u := by
  simp only [updateUser, bind_eq_ok, pure_eq_ok, Prod.mk.injEq, orElse_eq_ok] at h
  obtain ⟨_, -, _, -, users, husers, _, -, rfl, -⟩ := h
  show users.find? id = _
  rw [Keyed.Table.find?_update (of_constrained husers) (f := update.apply) fun _ => rfl]
  refine Option.map_congr fun u stored => ?_
  have key : u.id = id := (Keyed.Table.find?_eq_some.mp stored).2
  rw [key]
  simp only [decide_eq_true_eq]

/-- The search before archiving is the guard for every Space of the user. -/
theorem other_of_not_wouldLoseAdmin {state : State} {userID spaceID : Int}
    (safe : wouldLoseAdmin state userID = false)
    (held : userID ∈ state.administration.holders spaceID) :
    ∃ other ∈ state.administration.holders spaceID, other ≠ userID := by
  obtain ⟨target, htarget, admin, rfl⟩ := held
  obtain ⟨space, active, role, -⟩ := isActiveAdmin_iff.mp admin
  have row := Keyed.Table.any_eq_false.mp safe target htarget
  simp only [active, role, decide_true, Bool.true_and, Bool.not_eq_false',
    Keyed.Table.any_eq_true, Bool.and_eq_true, decide_eq_true_eq] at row
  obtain ⟨other, hother, admin', hne⟩ := row
  rw [space] at admin'
  exact ⟨other.userID, ⟨other, hother, admin', rfl⟩, hne⟩

theorem updateUser_step {state state' : State} {update : UpdateUser} {user : UserRow}
    (h : updateUser state update = .ok (state', user)) :
    Guarded.Step state.administration state'.administration := by
  simp only [updateUser, validateUserArchive, bind_eq_ok, pure_eq_ok, Prod.mk.injEq, onlyIf_eq_ok,
    require_eq_ok, orElse_eq_ok] at h
  obtain ⟨_, archive, _, -, users, husers, _, -, rfl, -⟩ := h
  have husers := of_constrained husers
  by_cases archives : update.rowStatus = some .Archived
  · obtain ⟨current, found, guarded⟩ := archive (by simpa using archives)
    refine .remove update.id {i | update.id ∈ state.administration.holders i} ?_ ?_
    · intro i _ held
      -- A user who administers anything is normal, so the search was made.
      have normal : current.rowStatus = .Normal := by
        obtain ⟨sm, -, admin, same⟩ := held
        obtain ⟨-, -, -, normal⟩ := isActiveAdmin_iff.mp admin
        obtain ⟨u, hu, hid, status⟩ := normalUser_iff.mp normal
        rw [Keyed.Table.find?_eq_some.mpr ⟨hu, hid.trans same⟩, Option.some.injEq] at found
        rw [← found]
        exact status
      have safe := guarded (by simpa using normal)
      exact other_of_not_wouldLoseAdmin (by simpa using safe) held
    · intro i live
      refine ⟨live, ?_⟩
      rintro b ⟨sm, hsm, admin, rfl⟩ stays
      have other : sm.userID ≠ update.id := by
        rcases stays with other | outside
        · exact other
        · exact fun same => outside ⟨sm, hsm, admin, same⟩
      obtain ⟨space, active, role, normal⟩ := isActiveAdmin_iff.mp admin
      exact ⟨sm, hsm, isActiveAdmin_iff.mpr
        ⟨space, active, role, normalUser_update husers normal (.inl other)⟩, rfl⟩
  · refine .keep fun i live => ⟨live, holders_subset fun sm hsm _ _ _ normal => ⟨hsm, ?_⟩⟩
    exact normalUser_update husers normal (.inr archives)

theorem deleteUser_step {state state' : State} {userID : Int}
    (h : deleteUser state userID = .ok state') :
    Guarded.Step state.administration state'.administration := by
  rw [deleteUser] at h
  by_cases missing : (state.users.find? userID).isNone = true
  · rw [if_pos missing, pure_eq_ok] at h
    rw [h]
    exact .keep fun i live => ⟨live, subset_rfl⟩
  · rw [if_neg missing] at h
    simp only [bind_eq_ok, pure_eq_ok, require_eq_ok] at h
    obtain ⟨_, memberships, rfl⟩ := h
    have none : ∀ sm ∈ state.members, sm.status = .Active → sm.userID ≠ userID := by
      intro sm hsm active same
      have positive : 0 < state.members.count fun sm =>
          decide (sm.userID = userID) && decide (sm.status ≠ .Invited) :=
        Keyed.Table.count_pos.mpr ⟨sm, hsm, by simp [same, active]⟩
      rw [of_decide_eq_true memberships] at positive
      exact Nat.lt_irrefl 0 positive
    refine .keep fun i live => ⟨live, holders_subset fun sm hsm _ active _ normal => ⟨?_, ?_⟩⟩
    · exact Keyed.Table.mem_delete.mpr ⟨hsm, by simp [active]⟩
    · obtain ⟨u, hu, hid, status⟩ := normalUser_iff.mp normal
      refine normalUser_iff.mpr ⟨u, Keyed.Table.mem_delete.mpr ⟨hu, ?_⟩, hid, status⟩
      have := none sm hsm active
      rw [← hid] at this
      simpa using this

/-! ### Runs -/

theorem ok_of_map_fst {α : Type} {x : Except StoreError (State × α)} {state : State}
    (h : x.map Prod.fst = .ok state) : ∃ a, x = .ok (state, a) := by
  match x, h with
  | .ok (s, a), h => exact ⟨a, congrArg (fun s => Except.ok (s, a)) (Except.ok.inj h)⟩

theorem Operation.commit_step {state state' : State} {operation : Operation}
    (h : operation.commit state = .ok state') :
    Guarded.Step state.administration state'.administration := by
  cases operation with
  | createSpace create creator =>
      obtain ⟨_, h⟩ := ok_of_map_fst h
      exact createSpace_step h
  | createSpaceInvitation create actor =>
      obtain ⟨_, h⟩ := ok_of_map_fst h
      exact createSpaceInvitation_step h
  | acceptSpaceInvitation space user actor =>
      obtain ⟨_, h⟩ := ok_of_map_fst h
      exact acceptSpaceInvitation_step h
  | declineSpaceInvitation space user actor => exact declineSpaceInvitation_step h
  | revokeSpaceInvitation space user actor => exact revokeSpaceInvitation_step h
  | updateSpaceMember update actor =>
      obtain ⟨_, h⟩ := ok_of_map_fst h
      exact updateSpaceMember_step h
  | deleteSpaceMember delete actor => exact deleteSpaceMember_step h
  | deleteSpace delete => exact deleteSpace_step h
  | updateUser update =>
      obtain ⟨_, h⟩ := ok_of_map_fst h
      exact updateUser_step h
  | deleteUser user => exact deleteUser_step h

/-- An operation commits or changes nothing. -/
theorem Operation.perform_cases (operation : Operation) (state : State) (interrupted : Bool) :
    operation.perform state interrupted = state ∨
      operation.commit state = .ok (operation.perform state interrupted) := by
  rw [Operation.perform.eq_def]
  split
  · rename_i committed
    exact .inr committed
  · exact .inl rfl

theorem perform_refines (operations : List (Operation × Bool)) (state : State) :
    Relation.ReflTransGen Guarded.Step state.administration
      (perform state operations).administration := by
  induction operations generalizing state with
  | nil => exact .refl
  | cons first rest ih =>
      obtain ⟨operation, interrupted⟩ := first
      have tail := ih (operation.perform state interrupted)
      rcases operation.perform_cases state interrupted with same | committed
      · rw [perform, same]
        rw [same] at tail
        exact tail
      · exact .head (Operation.commit_step committed) tail

/-- **Every reachable database has an administrator for each of its Spaces.**

Starting without Spaces, whatever users there are, every sequence of operations, each
with any arguments and each either committing or failing, leaves every existing Space
with an active member of role `ADMIN` whose user is in status `NORMAL`. -/
theorem every_space_administered (state : State) (fresh : state.spaces = Keyed.Table.empty)
    (operations : List (Operation × Bool)) :
    ∀ space ∈ (perform state operations).spaces,
      ∃ sm ∈ (perform state operations).members,
        sm.spaceID = space.id ∧ sm.status = .Active ∧ sm.role = .Admin ∧
        ∃ user ∈ (perform state operations).users, user.id = sm.userID ∧ user.rowStatus = .Normal := by
  intro space hspace
  have start : state.administration.Inhabited := by
    rintro _ ⟨row, hrow, -⟩
    rw [fresh] at hrow
    exact absurd hrow List.not_mem_nil
  have inhabited := Guarded.inhabited_of_run (perform_refines operations state) start
  obtain ⟨_, sm, hsm, admin, -⟩ := inhabited space.id ⟨space, hspace, rfl⟩
  obtain ⟨here, active, role, normal⟩ := isActiveAdmin_iff.mp admin
  exact ⟨sm, hsm, here, active, role, normalUser_iff.mp normal⟩

def twoUsers : State where
  users := ⟨[.withDefaults 1 "eva", .withDefaults 2 "tom"], by decide, by decide⟩
  spaces := Keyed.Table.empty
  members := Keyed.Table.empty
  memos := Keyed.Table.empty
  shares := Keyed.Table.empty
  revisions := Keyed.Table.empty
  spaceSequence := 0
  revisionSequence := 0
  allowsAnonymousAccess := false

def teamSpace : Space :=
  { id := 0, uid := "team", urlSlug := "", title := "Team", description := "", avatarURL := "",
    accessMode := .InviteOnly, syncToMainFeed := true, currentUserRole := none, memberCount := 0 }

/-- Eva creates a Space, is not allowed to leave it, makes Tom an administrator and then
leaves; Tom may not go after her. -/
def handOver : List (Operation × Bool) :=
  [(.createSpace teamSpace 1, false),
    (.deleteSpaceMember ⟨1, 1, false⟩ 1, false),
    (.createSpaceInvitation ⟨1, 2, .Admin⟩ 1, false),
    (.acceptSpaceInvitation 1 2 2, false),
    (.deleteSpaceMember ⟨1, 1, false⟩ 1, false),
    (.deleteUser 2, false)]

theorem every_space_administered_handOver :
    (perform twoUsers handOver).members.rows.map SpaceMemberRow.key = [(1, 2)] ∧
    ∀ space ∈ (perform twoUsers handOver).spaces,
      ∃ sm ∈ (perform twoUsers handOver).members,
        sm.spaceID = space.id ∧ sm.status = .Active ∧ sm.role = .Admin ∧
        ∃ user ∈ (perform twoUsers handOver).users, user.id = sm.userID ∧ user.rowStatus = .Normal :=
  ⟨by decide +kernel, every_space_administered twoUsers rfl handOver⟩

end Memos.Store

/-
What the last-administrator guards are worth on Postgres.

Each guard is sound on the database its query saw, and each write takes the rights of at
most one user in a Space and lets nobody join when it takes some.  Whatever the order of
the statements, two transactions that both commit did so one after the other, the first
having read the initial database only.  So the first leaves an administrator, and the
second can take that one only if its guard had counted the one the first took.  This is
the one way for a Space to lose its last administrator, and it happens.
-/

namespace Memos.Store.Postgres

open ReadCommitted

/-! ### The administrators of a Space -/

def State.admins (state : State) (spaceID : Int) : Set Int :=
  {userID | ∃ sm ∈ state.members, state.isActiveAdmin spaceID sm = true ∧ sm.userID = userID}

variable {state state' : State} {spaceID userID : Int}

theorem isActiveAdmin_iff {sm : SpaceMemberRow} :
    state.isActiveAdmin spaceID sm = true ↔
      sm.spaceID = spaceID ∧ sm.status = .Active ∧ sm.role = .Admin
        ∧ state.normalUser sm.userID = true := by
  simp [State.isActiveAdmin, and_assoc]

theorem activeMember_iff {sm : SpaceMemberRow} :
    activeMember spaceID userID sm = true ↔
      sm.spaceID = spaceID ∧ sm.userID = userID ∧ sm.status = .Active := by
  simp [activeMember, and_assoc]

theorem normalUser_iff :
    state.normalUser userID = true ↔ ∃ u ∈ state.users, u.id = userID ∧ u.rowStatus = .Normal := by
  simp [State.normalUser]

theorem userStatus_eq_normal :
    state.userStatus userID = some .Normal ↔ state.normalUser userID = true := by
  simp only [State.userStatus, Option.map_eq_some_iff, Keyed.Table.find?_eq_some, normalUser_iff]
  exact exists_congr fun u => and_assoc

theorem mem_admins :
    userID ∈ state.admins spaceID ↔
      (∃ sm ∈ state.members, activeMember spaceID userID sm = true ∧ sm.role = .Admin)
        ∧ state.normalUser userID = true := by
  constructor
  · rintro ⟨sm, hsm, admin, rfl⟩
    obtain ⟨here, active, role, normal⟩ := isActiveAdmin_iff.mp admin
    exact ⟨⟨sm, hsm, activeMember_iff.mpr ⟨here, rfl, active⟩, role⟩, normal⟩
  · rintro ⟨⟨sm, hsm, member, role⟩, normal⟩
    obtain ⟨here, rfl, active⟩ := activeMember_iff.mp member
    exact ⟨sm, hsm, isActiveAdmin_iff.mpr ⟨here, active, role, normal⟩, rfl⟩

/-- An administrator's row is the one a query for the member finds. -/
theorem memberRole_of_admin {role : SpaceMemberRole} (admin : userID ∈ state.admins spaceID)
    (found : state.memberRole spaceID userID = some role) : role = .Admin := by
  obtain ⟨⟨sm, hsm, member, hrole⟩, -⟩ := mem_admins.mp admin
  obtain ⟨row, hrow, rfl⟩ := Option.map_eq_some_iff.mp found
  obtain ⟨hrow, member'⟩ := Keyed.Table.mem_select.mp (List.mem_of_mem_head? hrow)
  obtain ⟨here, user, -⟩ := activeMember_iff.mp member
  obtain ⟨here', user', -⟩ := activeMember_iff.mp member'
  have same : sm = row := by
    refine Keyed.Table.eq_of_key hsm hrow ?_
    show (sm.spaceID, sm.userID) = (row.spaceID, row.userID)
    rw [here, user, here', user']
  rw [← same, hrole]

/-! ### Writes -/

/-- The user whose administration of a Space a write can end. -/
def Write.removes (spaceID : Int) : Write → Option Int
  | .updateMember space user role => if space = spaceID ∧ role ≠ .Admin then some user else none
  | .deleteMember space user => if space = spaceID then some user else none
  | .updateUser update =>
      if update.rowStatus.any fun status => decide (status ≠ .Normal) then some update.id else none

/-- What a write does to the Spaces: they stay, an administrator other than the one the
write is against stays, and a write against one makes nobody an administrator. -/
structure Effect (w : Write) (state state' : State) : Prop where
  spaces : state'.spaces = state.spaces
  kept : ∀ spaceID, ∀ userID ∈ state.admins spaceID, w.removes spaceID ≠ some userID →
    userID ∈ state'.admins spaceID
  closed : ∀ spaceID userID, w.removes spaceID = some userID →
    state'.admins spaceID ⊆ state.admins spaceID

theorem updateMember_effect {role : SpaceMemberRole}
    (h : (Write.updateMember spaceID userID role).apply state = .ok state') :
    Effect (.updateMember spaceID userID role) state state' := by
  simp only [Write.apply, bind_eq_ok, pure_eq_ok] at h
  obtain ⟨members, hmembers, _, -, rfl⟩ := h
  have rows := fun r => Keyed.Table.mem_update (r := r) (of_constrained hmembers)
  refine ⟨rfl, ?_, ?_⟩
  · intro space user admin other
    obtain ⟨⟨sm, hsm, member, hrole⟩, normal⟩ := mem_admins.mp admin
    obtain ⟨here, who, active⟩ := activeMember_iff.mp member
    refine mem_admins.mpr ⟨⟨_, (rows _).mpr ⟨sm, hsm, rfl⟩, ?_, ?_⟩, normal⟩
    · split
      · exact member
      · exact member
    · split
      · rename_i target
        obtain ⟨here', who', -⟩ := activeMember_iff.mp target
        by_contra demoted
        exact other (by simp [Write.removes, ← here', ← who', here, who, demoted])
      · exact hrole
  · intro space user against v admin
    obtain ⟨⟨sm, hsm, member, hrole⟩, normal⟩ := mem_admins.mp admin
    have demotes : role ≠ .Admin := by
      rw [Write.removes] at against
      split at against
      · rename_i both
        exact both.2
      · cases against
    obtain ⟨old, hold, written⟩ := (rows sm).mp hsm
    split at written
    · rw [← written] at hrole
      exact absurd hrole demotes
    · exact mem_admins.mpr ⟨⟨sm, written ▸ hold, member, hrole⟩, normal⟩

theorem deleteMember_effect (h : (Write.deleteMember spaceID userID).apply state = .ok state') :
    Effect (.deleteMember spaceID userID) state state' := by
  simp only [Write.apply, pure_eq_ok] at h
  subst h
  refine ⟨rfl, ?_, ?_⟩
  · intro space user admin other
    obtain ⟨⟨sm, hsm, member, hrole⟩, normal⟩ := mem_admins.mp admin
    refine mem_admins.mpr ⟨⟨sm, Keyed.Table.mem_delete.mpr ⟨hsm, ?_⟩, member, hrole⟩, normal⟩
    obtain ⟨here, who, -⟩ := activeMember_iff.mp member
    by_contra target
    obtain ⟨here', who', -⟩ := activeMember_iff.mp (Bool.not_eq_false _ ▸ target)
    exact other (by simp [Write.removes, ← here', ← who', here, who])
  · intro _ _ _ v admin
    obtain ⟨⟨sm, hsm, member, hrole⟩, normal⟩ := mem_admins.mp admin
    exact mem_admins.mpr ⟨⟨sm, (Keyed.Table.mem_delete.mp hsm).1, member, hrole⟩, normal⟩

theorem updateUser_effect {update : UpdateUser}
    (h : (Write.updateUser update).apply state = .ok state') :
    Effect (.updateUser update) state state' := by
  simp only [Write.apply, bind_eq_ok, pure_eq_ok] at h
  obtain ⟨users, husers, _, -, rfl⟩ := h
  have rows := fun r => Keyed.Table.mem_update (r := r) (of_constrained husers)
  refine ⟨rfl, ?_, ?_⟩
  · intro space user admin other
    obtain ⟨member, normal⟩ := mem_admins.mp admin
    refine mem_admins.mpr ⟨member, ?_⟩
    obtain ⟨u, hu, rfl, status⟩ := normalUser_iff.mp normal
    refine normalUser_iff.mpr ⟨_, (rows _).mpr ⟨u, hu, rfl⟩, ?_⟩
    split
    · rename_i target
      have same : u.id = update.id := by simpa using target
      refine ⟨rfl, ?_⟩
      show update.rowStatus.getD u.rowStatus = .Normal
      cases hstatus : update.rowStatus with
      | none => exact status
      | some written =>
          by_contra lost
          exact other (by simpa [Write.removes, hstatus, same] using lost)
    · exact ⟨rfl, status⟩
  · intro space user against v admin
    obtain ⟨member, normal⟩ := mem_admins.mp admin
    refine mem_admins.mpr ⟨member, ?_⟩
    obtain ⟨u, hu, rfl, status⟩ := normalUser_iff.mp normal
    obtain ⟨old, hold, written⟩ := (rows u).mp hu
    split at written
    · -- The row that was written is in no status `NORMAL`.
      subst written
      rw [Write.removes] at against
      split at against
      · rename_i leaves
        obtain ⟨given, hgiven, hne⟩ := (Option.any_eq_true _ _).mp leaves
        have status : update.rowStatus.getD old.rowStatus = .Normal := status
        rw [hgiven] at status
        exact absurd status (by simpa using hne)
      · cases against
    · exact normalUser_iff.mpr ⟨u, written ▸ hold, rfl, status⟩

theorem Write.effect {w : Write} (h : w.apply state = .ok state') : Effect w state state' := by
  cases w with
  | updateMember spaceID userID role => exact updateMember_effect h
  | deleteMember spaceID userID => exact deleteMember_effect h
  | updateUser update => exact updateUser_effect h

/-! ### Guards

In each case the guard is read off the script: which queries were made on the way to the
write, and what they found.  `P` says which databases the queries can have seen.
-/

section Guards

variable {P : State → Prop} {w : Write}

/-- The count in a membership guard is worth an administrator besides the target. -/
theorem other_of_requireOtherAdmin {u : Unit} (h : Yields P (requireOtherAdmin spaceID) u)
    (userID : Int) : ∃ state, P state ∧ ∃ other ∈ state.admins spaceID, other ≠ userID := by
  simp only [requireOtherAdmin, yields_bind, yields_ask, yields_lift, require_eq_ok] at h
  obtain ⟨count, ⟨state, seen, rfl⟩, many⟩ := h
  obtain ⟨sm, hsm, admin, hne⟩ := Keyed.Table.exists_other (of_decide_eq_true many) (spaceID, userID)
  refine ⟨state, seen, sm.userID, ⟨sm, hsm, admin, rfl⟩, fun same => hne ?_⟩
  show (sm.spaceID, sm.userID) = _
  rw [(isActiveAdmin_iff.mp admin).1, same]

theorem updateSpaceMember_guard {update : UpdateSpaceMember} {actorUserID : Int}
    (h : Yields P (updateSpaceMember update actorUserID) w) (against : w.removes spaceID = some userID)
    (held : ∀ state, P state → userID ∈ state.admins spaceID) :
    ∃ state, P state ∧ ∃ other ∈ state.admins spaceID, other ≠ userID := by
  simp only [updateSpaceMember, yields_bind, yields_ask, yields_lift, yields_pure, yields_onlyIf,
    orElse_eq_ok] at h
  obtain ⟨_, -, _, -, _, ⟨state, seen, rfl⟩, current, found, _, guarded, role, given, rfl⟩ := h
  simp only [Write.removes, Option.ite_none_right_eq_some, Option.some.injEq] at against
  obtain ⟨⟨rfl, demotes⟩, rfl⟩ := against
  have admin : current = .Admin := memberRole_of_admin (held state seen) found
  exact other_of_requireOtherAdmin (guarded (by simp [admin, given, demotes])) _

/-- A user whom every query finds in status `NORMAL` is known as such in the end. -/
theorem lookup_readUserStatuses {userIDs : List Int} {known statuses : List (Int × RowStatus)}
    (h : Yields P (readUserStatuses userIDs known) statuses)
    (normal : ∀ state, P state → state.userStatus userID = some .Normal)
    (asked : known.lookup userID = some .Normal ∨
      known.lookup userID = none ∧ userID ∈ userIDs) :
    statuses.lookup userID = some .Normal := by
  induction userIDs generalizing known with
  | nil =>
      rw [readUserStatuses, yields_pure] at h
      rw [← h]
      simpa using asked
  | cons first rest ih =>
      rw [readUserStatuses] at h
      split at h
      · refine ih h (asked.imp_right fun missing => ⟨missing.1, ?_⟩)
        rename_i present
        refine (List.mem_cons.mp missing.2).resolve_left fun same => ?_
        rw [← same, missing.1] at present
        exact nomatch present
      · simp only [yields_bind, yields_ask] at h
        obtain ⟨_, ⟨state, seen, rfl⟩, h⟩ := h
        refine ih h ?_
        by_cases same : userID = first
        · left
          rw [← same, normal state seen]
          simp
        · have next : ∀ status : Option RowStatus,
              ((status.toList.map fun status => (first, status)) ++ known).lookup userID
                = known.lookup userID := by
            intro status
            cases status with
            | none => rfl
            | some status => simp [List.lookup_cons, beq_eq_false_iff_ne.mpr same]
          rw [next]
          exact asked.imp_right fun missing =>
            ⟨missing.1, (List.mem_cons.mp missing.2).resolve_left same⟩

theorem deleteSpaceMember_guard {delete : DeleteSpaceMember} {actorUserID : Int}
    (h : Yields P (deleteSpaceMember delete actorUserID) w)
    (against : w.removes spaceID = some userID)
    (held : ∀ state, P state → userID ∈ state.admins spaceID) :
    ∃ state, P state ∧ ∃ other ∈ state.admins spaceID, other ≠ userID := by
  simp only [deleteSpaceMember, yields_bind, yields_ask, yields_lift, yields_pure, yields_onlyIf,
    orElse_eq_ok] at h
  obtain ⟨userStatuses, statuses, _, -, _, -, _, -, _, -, _, ⟨state, seen, rfl⟩, role, found, _,
    guarded, rfl⟩ := h
  simp only [Write.removes, Option.ite_none_right_eq_some, Option.some.injEq] at against
  obtain ⟨rfl, rfl⟩ := against
  have admin : role = .Admin := memberRole_of_admin (held state seen) found
  have normal : userStatuses.lookup delete.userID = some .Normal :=
    lookup_readUserStatuses statuses
      (fun state seen => userStatus_eq_normal.mpr (mem_admins.mp (held state seen)).2)
      (.inr ⟨rfl, by simp⟩)
  exact other_of_requireOtherAdmin (guarded (by simp [admin, normal])) _

theorem updateUser_guard {update : UpdateUser} (archives : update.rowStatus = some .Archived)
    (h : Yields P (updateUser update) w) (against : w.removes spaceID = some userID)
    (live : ∀ state, P state → ∃ space ∈ state.spaces, space.id = spaceID)
    (held : ∀ state, P state → userID ∈ state.admins spaceID) :
    ∃ state, P state ∧ ∃ other ∈ state.admins spaceID, other ≠ userID := by
  simp only [updateUser, validateUserArchive, yields_bind, yields_ask, yields_lift, yields_pure,
    yields_onlyIf, require_eq_ok, archives, decide_true, true_implies] at h
  obtain ⟨_, ⟨_, ⟨state, seen, rfl⟩, safe⟩, _, -, rfl⟩ := h
  simp only [Write.removes, archives, Option.any_some, Option.ite_none_right_eq_some,
    Option.some.injEq] at against
  obtain ⟨-, rfl⟩ := against
  obtain ⟨⟨target, htarget, member, role⟩, normal⟩ := mem_admins.mp (held state seen)
  obtain ⟨here, who, active⟩ := activeMember_iff.mp member
  have exists_space : (state.spaces.any fun space => decide (space.id = target.spaceID)) = true := by
    obtain ⟨space, hspace, hid⟩ := live state seen
    exact Keyed.Table.any_eq_true.mpr ⟨space, hspace, by simp [hid, here]⟩
  simp only [State.isLastActiveAdmin, normal, Bool.true_and, Bool.not_eq_true',
    Keyed.Table.any_eq_false] at safe
  have row := safe target htarget
  simp only [who, active, role, exists_space, decide_true, Bool.true_and, Bool.not_eq_false',
    Keyed.Table.any_eq_true, Bool.and_eq_true, decide_eq_true_eq] at row
  obtain ⟨other, hother, admin, hne⟩ := row
  exact ⟨state, seen, other.userID, ⟨other, hother, here ▸ admin, rfl⟩, hne⟩

theorem Operation.guard {operation : Operation} (h : Yields P operation.script w)
    (against : w.removes spaceID = some userID)
    (live : ∀ state, P state → ∃ space ∈ state.spaces, space.id = spaceID)
    (held : ∀ state, P state → userID ∈ state.admins spaceID) :
    ∃ state, P state ∧ ∃ other ∈ state.admins spaceID, other ≠ userID := by
  cases operation with
  | updateSpaceMember update actor => exact updateSpaceMember_guard h against held
  | deleteSpaceMember delete actor => exact deleteSpaceMember_guard h against held
  | archiveUser update archives => exact updateUser_guard archives h against live held

/-- The write an operation comes to is against the user the operation is against. -/
theorem Operation.removes_eq {operation : Operation} (h : Yields P operation.script w)
    (spaceID : Int) : w.removes spaceID = operation.removes spaceID := by
  cases operation with
  | updateSpaceMember update actor =>
      simp only [Operation.script, Postgres.updateSpaceMember, yields_bind, yields_lift,
        yields_pure, orElse_eq_ok] at h
      obtain ⟨_, -, _, -, _, -, _, -, _, -, role, given, rfl⟩ := h
      simp [Write.removes, Operation.removes, given]
  | deleteSpaceMember delete actor =>
      simp only [Operation.script, Postgres.deleteSpaceMember, yields_bind, yields_pure] at h
      obtain ⟨_, -, _, -, _, -, _, -, _, -, _, -, _, -, _, -, rfl⟩ := h
      rfl
  | archiveUser update archives =>
      simp only [Operation.script, Postgres.updateUser, yields_bind, yields_pure] at h
      obtain ⟨_, -, _, -, rfl⟩ := h
      simp [Write.removes, Operation.removes, archives]

end Guards

/-! ### Two at once -/

/-- **A Space with an administrator keeps one through two operations at once.**

Any two of the operations, on any database and in any interleaving of their statements
in which both commit, leave a Space that had an administrator with one, unless the two
are against two different users who were its only administrators. -/
theorem administered_after_both (state : State) (operation : Bool → Operation)
    (schedule : List Bool) (final : Config State Write StoreError)
    (ran : run database schedule (begin state operation) = some final)
    (both : ∀ i, final.transaction i = .committed)
    (spaceID : Int) (live : ∃ space ∈ state.spaces, space.id = spaceID)
    (before : (state.admins spaceID).Nonempty)
    (apart : ∀ i a b, (operation i).removes spaceID = some a →
      (operation !i).removes spaceID = some b → a ≠ b → state.admins spaceID ≠ {a, b}) :
    (final.store.admins spaceID).Nonempty := by
  obtain ⟨i, w, w', between, reads, applied, reads', applied'⟩ := ordered_of_run ran both
  have effect : Effect w state between := Write.effect applied
  have effect' : Effect w' between final.store := Write.effect applied'
  by_contra gone
  obtain ⟨a, b, ha, hb, hne, only⟩ := Guarded.eq_pair_of_two_removals before
    (effect.kept spaceID) (effect'.kept spaceID) (effect.closed spaceID)
    (by
      intro a against held
      obtain ⟨_, rfl, other⟩ := Operation.guard reads against (fun _ h => h ▸ live)
        (fun _ h => h ▸ held)
      exact other)
    (by
      intro b against held held'
      obtain ⟨s, seen, a, ha, hne⟩ := Operation.guard reads' against
        (by
          rintro s (rfl | rfl)
          · exact live
          · rw [effect.spaces]
            exact live)
        (by
          rintro s (rfl | rfl)
          · exact held
          · exact held')
      rcases seen with rfl | rfl
      · exact ⟨a, .inl ha, hne⟩
      · exact ⟨a, .inr ha, hne⟩)
    gone
  rw [Operation.removes_eq reads] at ha
  rw [Operation.removes_eq reads'] at hb
  exact apart i a b ha hb hne only

def threeAdmins : State where
  users := ⟨[.withDefaults 1 "ada", .withDefaults 2 "bob", .withDefaults 3 "cyd"], by decide, by decide⟩
  spaces :=
    ⟨[{ id := 1, uid := "crew", urlSlug := none, title := "Crew", description := "",
        avatarURL := "", accessMode := .InviteOnly, syncToMainFeed := true }], by decide, by decide⟩
  members :=
    ⟨[⟨1, 1, .Active, .Admin⟩, ⟨1, 2, .Active, .Admin⟩, ⟨1, 3, .Active, .Admin⟩],
      by decide, by decide⟩

def leaving (i : Bool) : Operation :=
  let userID : Int := if i then 2 else 1
  .deleteSpaceMember ⟨1, userID, false⟩ userID

def countsFirst : List Bool :=
  [false, false, false, false, true, true, true, true, false, true, false, true]

theorem administered_after_both_three :
    ∃ final, run database countsFirst (begin threeAdmins leaving) = some final ∧
      (final.store.admins 1).Nonempty := by
  refine ⟨_, rfl, administered_after_both threeAdmins leaving countsFirst _ rfl ?_ 1 ?_ ?_ ?_⟩
  · intro i
    cases i with
    | false => rfl
    | true => rfl
  · exact ⟨_, List.mem_singleton_self _, rfl⟩
  · exact ⟨1, mem_admins.mpr (by decide)⟩
  · intro i a b ha hb _ only
    have third : (3 : Int) ∈ threeAdmins.admins 1 := mem_admins.mpr (by decide)
    rw [only] at third
    cases i with
    | false | true =>
        cases ha
        cases hb
        exact absurd third (by decide)

def twoAdmins : State :=
  { threeAdmins with members := threeAdmins.members.delete (activeMember 1 3) }

/-- Both counts see two administrators, and nobody is left. -/
theorem both_leave :
    ∃ final, run database countsFirst (begin twoAdmins leaving) = some final ∧
      (∀ i, final.transaction i = .committed) ∧
      (∃ space ∈ final.store.spaces, space.id = 1) ∧
      (twoAdmins.admins 1).Nonempty ∧ ¬ (final.store.admins 1).Nonempty := by
  refine ⟨_, rfl, ?_, ?_, ?_, ?_⟩
  · intro i
    cases i with
    | false => rfl
    | true => rfl
  · exact ⟨_, List.mem_singleton_self _, rfl⟩
  · exact ⟨1, mem_admins.mpr (by decide)⟩
  · rintro ⟨_, sm, hsm, -⟩
    exact absurd hsm List.not_mem_nil

end Memos.Store.Postgres

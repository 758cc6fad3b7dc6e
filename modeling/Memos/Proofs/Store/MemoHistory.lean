/-
What the trash gives back.

A restoration finds the comments of its batch again by the time of the deletion alone.
As long as no comment of the tree was in the trash already with that very time, this is
the batch, and restoring the root undoes its deletion, whatever other trees are deleted
and restored in between.

A comment that was trashed before with the same time comes back with the others.
-/
import Memos.Store.MemoHistory
import Memos.Proofs.Store.Delete
import Memos.Lib.Runs

namespace Memos.Store

open Keyed Relation

variable {readable : String → Bool} {db db' before between : Tables} {root at' : Int}

/-! ### Comments -/

theorem mem_queryCommentChildren {a b : Int} : b ∈ queryCommentChildren db a ↔
    ∃ r ∈ db.relations, r.relatedMemoID = a ∧ r.type = .Comment ∧ r.memoID = b := by
  unfold queryCommentChildren
  rw [List.mem_map]
  simp [and_assoc]

theorem mem_memoCommentTree {a b : Int} : b ∈ memoCommentTree db a ↔
    ReflTransGen (fun a b => b ∈ queryCommentChildren db a) a b := by
  have known : ∀ a, ∀ b ∈ queryCommentChildren db a,
      b ∈ db.relations.rows.map MemoRelationRow.memoID := by
    intro a b child
    obtain ⟨r, stored, -, -, same⟩ := mem_queryCommentChildren.mp child
    exact List.mem_map.mpr ⟨r, stored, same⟩
  refine Worklist.mem_walk known ?_ b
  rw [List.length_map]
  exact Nat.lt_succ_self _

theorem root_mem_memoCommentTree (db : Tables) (id : Int) : id ∈ memoCommentTree db id :=
  mem_memoCommentTree.mpr .refl

theorem comment_mem_memoCommentTree {id : Int} {r : MemoRelationRow} (stored : r ∈ db.relations)
    (comment : r.type = .Comment) (parent : r.relatedMemoID ∈ memoCommentTree db id) :
    r.memoID ∈ memoCommentTree db id :=
  mem_memoCommentTree.mpr ((mem_memoCommentTree.mp parent).tail
    (mem_queryCommentChildren.mpr ⟨r, stored, rfl, comment, rfl⟩))

/-! ### Into the trash and back -/

def Tables.deletedTs (db : Tables) (id : Int) : Option Int :=
  (db.memos.find? id).bind MemoRow.deletedTs

def MemoRow.trashed (at' : Int) (memo : MemoRow) : MemoRow :=
  if memo.deletedTs.isNone then memo.withDeletedTs (some at') else memo

def MemoRow.untrashed (at' : Int) (memo : MemoRow) : MemoRow :=
  if decide (memo.deletedTs = some at') then memo.withDeletedTs none else memo

theorem isSome_deletedTs_trashed (memo : MemoRow) : (memo.trashed at').deletedTs.isSome := by
  unfold MemoRow.trashed
  split
  · rfl
  · rename_i deleted
    rw [Option.isNone_iff_eq_none] at deleted
    exact Option.isSome_iff_ne_none.mpr deleted

/-- Back from the trash, a memo is what it was, if it was not of that batch already. -/
theorem untrashed_trashed {memo : MemoRow} (fresh : memo.deletedTs ≠ some at') :
    (memo.trashed at').untrashed at' = memo := by
  unfold MemoRow.trashed
  split
  · rename_i live
    have same : memo.deletedTs = none := Option.isNone_iff_eq_none.mp live
    unfold MemoRow.untrashed
    rw [if_pos (by exact decide_eq_true rfl)]
    show { memo with deletedTs := none } = memo
    rw [← same]
  · exact if_neg (by rw [decide_eq_true_eq]; exact fresh)

/-- An update that no longer applies to what it has written. -/
theorem find?_updateDeletedTs {memos : Table MemoRow.schema} {ids : List Int} {p : MemoRow → Bool}
    {deletedTs : Option Int} (once : ∀ memo : MemoRow, p (memo.withDeletedTs deletedTs) = false)
    (k : Int) : (updateDeletedTs memos ids p deletedTs).find? k = (memos.find? k).map fun memo =>
      if k ∈ ids ∧ p memo = true then memo.withDeletedTs deletedTs else memo := by
  unfold updateDeletedTs
  induction ids generalizing memos with
  | nil => simp
  | cons id ids ih =>
      rw [List.foldl_cons, ih, Table.find?_modify, Option.map_map]
      cases found : memos.find? k with
      | none => rfl
      | some memo =>
          have same : memo.id = k := (Table.find?_eq_some.mp found).2
          refine congrArg some ?_
          dsimp only [Function.comp]
          by_cases h : id = k
          · by_cases holds : p memo = true
            · simp [h, same, holds, once]
            · simp [same, holds]
          · simp [same, Ne.symm h]

theorem find?_softDeleteMemoSet (db : Tables) (id at' k : Int) :
    (softDeleteMemoSet db id at').memos.find? k =
      if k ∈ memoCommentTree db id then (db.memos.find? k).map (MemoRow.trashed at')
      else db.memos.find? k := by
  unfold softDeleteMemoSet
  rw [find?_updateDeletedTs fun _ => rfl]
  split
  · rename_i inside
    simp only [inside, true_and]
    rfl
  · rename_i outside
    simp [outside]

theorem find?_restored {ids : List Int} (k : Int) :
    (updateDeletedTs db.memos ids (fun memo => decide (memo.deletedTs = some at')) none).find? k =
      if k ∈ ids then (db.memos.find? k).map (MemoRow.untrashed at') else db.memos.find? k := by
  rw [find?_updateDeletedTs fun _ => rfl]
  split
  · rename_i inside
    simp only [inside, true_and]
    rfl
  · rename_i outside
    simp [outside]

/-! ### What an operation can change -/

/-- The memos an operation selects: those it writes or deletes, unless it is refused. -/
def TrashOperation.targets (db : Tables) : TrashOperation → List Int
  | .delete policy =>
      if policy.deletedTs.isSome then
        (memoCommentTree db policy.memoID).filter fun id => (db.deletedTs id).isNone
      else policy.memoIDs db
  | .restore id _ _ =>
      (memoCommentTree db id).filter fun target => decide (db.deletedTs target = db.deletedTs id)
  | .purge id => memoCommentTree db id

/-- Nothing but some memos has changed, and the relations of these may be gone. -/
structure Confined (ids : List Int) (db db' : Tables) : Prop where
  memos : ∀ id ∉ ids, db'.memos.find? id = db.memos.find? id
  known : ∀ r ∈ db'.relations, r ∈ db.relations
  kept : ∀ r ∈ db.relations, r.memoID ∉ ids → r.relatedMemoID ∉ ids → r ∈ db'.relations
  users : db'.users = db.users

theorem Confined.refl (ids : List Int) (db : Tables) : Confined ids db db :=
  ⟨fun _ _ => rfl, fun _ h => h, fun _ h _ _ => h, rfl⟩

theorem Confined.of_memos {ids : List Int} {memos : Table MemoRow.schema}
    (same : ∀ id ∉ ids, memos.find? id = db.memos.find? id) : Confined ids db { db with memos } :=
  ⟨same, fun _ h => h, fun _ h _ _ => h, rfl⟩

theorem confined_deleteSQLiteMemoSetTx {ids : List Int} {attachments : List AttachmentRow}
    (h : deleteSQLiteMemoSetTx readable db ids = .ok (db', attachments)) : Confined ids db db' := by
  obtain ⟨-, rfl⟩ := deleteSQLiteMemoSetTx_eq h
  refine ⟨fun id outside => ?_, fun r hr => ?_, fun r hr memo related => ?_, rfl⟩
  · refine Table.find?_delete fun memo _ same => ?_
    show ids.contains memo.id = false
    rw [List.contains_eq_mem, decide_eq_false_iff_not]
    exact fun inside => outside (same ▸ inside)
  · exact (Table.mem_delete.mp hr).1
  · refine Table.mem_delete.mpr ⟨hr, ?_⟩
    simp [memo, related]

theorem confined_softDeleteMemoSet {policy : DeleteMemoWithPolicy}
    (trash : policy.deletedTs = some at') :
    Confined ((TrashOperation.delete policy).targets db) db
      (softDeleteMemoSet db policy.memoID at') := by
  rw [TrashOperation.targets, trash, if_pos (by exact rfl)]
  refine .of_memos fun id outside => ?_
  refine (find?_softDeleteMemoSet db policy.memoID at' id).trans ?_
  split
  · rename_i inside
    cases found : db.memos.find? id with
    | none => rfl
    | some memo =>
        have deleted : ¬ memo.deletedTs.isNone := by
          intro live
          refine outside (List.mem_filter.mpr ⟨inside, ?_⟩)
          rw [Tables.deletedTs, found]
          exact live
        rw [Option.map_some, MemoRow.trashed, if_neg deleted]
  · rfl

theorem confined_deleteMemoWithPolicy {policy : DeleteMemoWithPolicy}
    {result : DeleteMemoWithPolicyResult}
    (h : deleteMemoWithPolicy readable db policy = .ok (db', result)) :
    Confined ((TrashOperation.delete policy).targets db) db db' := by
  unfold deleteMemoWithPolicy at h
  obtain ⟨-, -, h⟩ := bind_eq_ok.mp h
  obtain ⟨actor, -, h⟩ := bind_eq_ok.mp h
  obtain ⟨-, -, h⟩ := bind_eq_ok.mp h
  obtain ⟨memo, -, h⟩ := bind_eq_ok.mp h
  obtain ⟨-, -, h⟩ := bind_eq_ok.mp h
  obtain ⟨-, -, h⟩ := bind_eq_ok.mp h
  cases trash : policy.deletedTs with
  | some at' =>
      rw [trash] at h
      dsimp only at h
      rw [pure_eq_ok] at h
      injection h with tables
      rw [← tables]
      exact confined_softDeleteMemoSet trash
  | none =>
      rw [trash] at h
      obtain ⟨⟨tables, attachments⟩, deleted, h⟩ := bind_eq_ok.mp h
      rw [pure_eq_ok] at h
      injection h with same
      rw [← same, TrashOperation.targets, trash]
      exact confined_deleteSQLiteMemoSetTx deleted

theorem confined_restoreDeletedMemo {id actorID : Int} {admin : Bool}
    (h : restoreDeletedMemo db id actorID admin = .ok db') :
    Confined ((TrashOperation.restore id actorID admin).targets db) db db' := by
  unfold restoreDeletedMemo at h
  obtain ⟨actor, -, h⟩ := bind_eq_ok.mp h
  obtain ⟨-, -, h⟩ := bind_eq_ok.mp h
  obtain ⟨memo, stored, h⟩ := bind_eq_ok.mp h
  obtain ⟨-, -, h⟩ := bind_eq_ok.mp h
  obtain ⟨time, deleted, h⟩ := bind_eq_ok.mp h
  obtain ⟨-, -, h⟩ := bind_eq_ok.mp h
  rw [pure_eq_ok] at h
  rw [← h]
  have batch : db.deletedTs id = some time := by
    rw [Tables.deletedTs, orElse_eq_ok.mp stored]
    exact orElse_eq_ok.mp deleted
  refine .of_memos fun target outside => ?_
  refine (find?_restored target).trans ?_
  split
  · rename_i inside
    cases found : db.memos.find? target with
    | none => rfl
    | some other =>
        have apart : ¬ decide (other.deletedTs = some time) = true := by
          intro same
          refine outside (List.mem_filter.mpr ⟨inside, ?_⟩)
          rw [batch, Tables.deletedTs, found]
          exact same
        rw [Option.map_some, MemoRow.untrashed, if_neg apart]
  · rfl

theorem confined_purgeDeletedMemo {id : Int} {attachments : List AttachmentRow}
    (h : purgeDeletedMemo readable db id = .ok (db', attachments)) :
    Confined ((TrashOperation.purge id).targets db) db db' := by
  unfold purgeDeletedMemo at h
  cases found : db.memos.find? id with
  | none =>
      rw [found] at h
      injection h with h
      injection h with same
      rw [← same]
      exact .refl _ db
  | some memo =>
      rw [found] at h
      obtain ⟨-, -, h⟩ := bind_eq_ok.mp h
      exact confined_deleteSQLiteMemoSetTx h

theorem confined_perform {action : TrashOperation × Bool}
    (h : TrashOperation.perform readable db action = some db') :
    Confined (action.1.targets db) db db' := by
  unfold TrashOperation.perform at h
  split at h
  · rename_i committed commit _
    injection h with h
    rw [← h]
    cases hop : action.1 with
    | delete policy =>
        rw [hop] at commit
        obtain ⟨⟨tables, result⟩, done, rfl⟩ := map_eq_ok.mp commit
        exact confined_deleteMemoWithPolicy done
    | restore id actorID admin =>
        rw [hop] at commit
        exact confined_restoreDeletedMemo commit
    | purge id =>
        rw [hop] at commit
        obtain ⟨⟨tables, attachments⟩, done, rfl⟩ := map_eq_ok.mp commit
        exact confined_purgeDeletedMemo done
  · injection h with h
    rw [← h]
    exact .refl _ db

/-! ### While a tree is in the trash -/

/-- The operation is about another tree: the root is not below the memo it is about, and it
selects no memo below the root. -/
def Elsewhere (root : Int) (db : Tables) (operation : TrashOperation) : Prop :=
  root ∉ memoCommentTree db operation.memoID ∧
    ∀ id ∈ operation.targets db, id ∉ memoCommentTree db root

/-- The memos a memo is a comment on are stored and live. -/
def ParentsLive (db : Tables) (id : Int) : Prop :=
  ∀ r ∈ db.relations, r.memoID = id → r.type = .Comment →
    ∃ parent, db.memos.find? r.relatedMemoID = some parent ∧ parent.deletedTs = none

/-- What holds of the tree of a memo from its deletion on. -/
structure Trashed (before : Tables) (root at' : Int) (db : Tables) : Prop where
  children : ∀ a ∈ memoCommentTree before root, ∀ b,
    b ∈ queryCommentChildren db a ↔ b ∈ queryCommentChildren before a
  memos : ∀ id ∈ memoCommentTree before root,
    db.memos.find? id = (before.memos.find? id).map (MemoRow.trashed at')
  parents : ParentsLive db root
  users : db.users = before.users

theorem trashed_softDeleteMemoSet (parents : ParentsLive before root)
    (outside : ∀ r ∈ before.relations, r.memoID = root → r.type = .Comment →
      r.relatedMemoID ∉ memoCommentTree before root) :
    Trashed before root at' (softDeleteMemoSet before root at') := by
  refine ⟨fun _ _ _ => Iff.rfl, fun id inside => ?_, fun r hr same comment => ?_, rfl⟩
  · rw [find?_softDeleteMemoSet, if_pos inside]
  · obtain ⟨parent, stored, live⟩ := parents r hr same comment
    refine ⟨parent, ?_, live⟩
    rw [find?_softDeleteMemoSet, if_neg (outside r hr same comment)]
    exact stored

theorem Trashed.mem_tree (h : Trashed before root at' db) (id : Int) :
    id ∈ memoCommentTree db root ↔ id ∈ memoCommentTree before root := by
  rw [mem_memoCommentTree, mem_memoCommentTree]
  exact Worklist.reaches_congr (fun a reached => h.children a (mem_memoCommentTree.mpr reached)) id

/-- An operation selects memos of the tree it is about. -/
theorem mem_memoCommentTree_of_targets {operation : TrashOperation} {id : Int}
    (h : id ∈ operation.targets db) : id ∈ memoCommentTree db operation.memoID := by
  cases operation with
  | delete policy =>
      rw [TrashOperation.targets] at h
      split at h
      · exact (List.mem_filter.mp h).1
      · unfold DeleteMemoWithPolicy.memoIDs at h
        split at h
        · exact h
        · rw [List.mem_singleton.mp h]
          exact root_mem_memoCommentTree db _
  | restore target actorID admin => exact (List.mem_filter.mp h).1
  | purge target => exact h

/-- The children of a memo that is not selected, when none of them is selected either. -/
theorem Confined.mem_queryCommentChildren {ids : List Int} (h : Confined ids db db') {a : Int}
    (self : a ∉ ids) (others : ∀ b ∈ queryCommentChildren db a, b ∉ ids) (b : Int) :
    b ∈ queryCommentChildren db' a ↔ b ∈ queryCommentChildren db a := by
  rw [Store.mem_queryCommentChildren]
  constructor
  · rintro ⟨r, stored, parent, comment, same⟩
    exact Store.mem_queryCommentChildren.mpr ⟨r, h.known r stored, parent, comment, same⟩
  · intro child
    have spared := others b child
    obtain ⟨r, stored, parent, comment, same⟩ := Store.mem_queryCommentChildren.mp child
    exact ⟨r, h.kept r stored (same ▸ spared) (parent ▸ self), parent, comment, same⟩

theorem Trashed.perform {action : TrashOperation × Bool} (h : Trashed before root at' db)
    (elsewhere : Elsewhere root db action.1)
    (next : TrashOperation.perform readable db action = some db') :
    Trashed before root at' db' := by
  obtain ⟨below, apart⟩ := elsewhere
  have confined := confined_perform next
  have spared : ∀ id ∈ memoCommentTree before root, id ∉ action.1.targets db :=
    fun id inside selected => apart id selected ((h.mem_tree id).mpr inside)
  refine ⟨fun a inside b => ?_, fun id inside => ?_, fun r hr same comment => ?_, ?_⟩
  · rw [← h.children a inside b]
    refine confined.mem_queryCommentChildren (spared a inside) (fun b child => spared b ?_) b
    exact mem_memoCommentTree.mpr ((mem_memoCommentTree.mp inside).tail
      ((h.children a inside b).mp child))
  · rw [confined.memos id (spared id inside)]
    exact h.memos id inside
  · have stored := confined.known r hr
    obtain ⟨parent, found, live⟩ := h.parents r stored same comment
    refine ⟨parent, ?_, live⟩
    rw [confined.memos, found]
    intro selected
    have above := mem_memoCommentTree_of_targets selected
    exact below (same ▸ comment_mem_memoCommentTree stored comment above)
  · rw [confined.users]
    exact h.users

/-! ### Restoration -/

def MayRestore (db : Tables) (memo : MemoRow) (actorID : Int) (admin : Bool) : Prop :=
  ∃ actor, db.users.find? actorID = some actor ∧ actor.rowStatus = .Normal ∧
    (memo.creatorID = actorID ∨ (admin = true ∧ actor.role = .Admin))

theorem trashed_of_live {memo : MemoRow} (live : memo.deletedTs = none) :
    memo.trashed at' = memo.withDeletedTs (some at') := by
  rw [MemoRow.trashed, live, if_pos (by exact rfl)]

theorem count_parentUnavailable (parents : ParentsLive db root) :
    db.relations.count (parentUnavailable db root) = 0 := by
  refine List.countP_eq_zero.mpr fun r hr unavailable => ?_
  unfold parentUnavailable at unavailable
  rw [Bool.and_eq_true, Bool.and_eq_true, decide_eq_true_eq, decide_eq_true_eq] at unavailable
  obtain ⟨⟨same, comment⟩, gone⟩ := unavailable
  obtain ⟨parent, found, live⟩ := parents r hr same comment
  rw [found, Option.all_some, live] at gone
  cases gone

theorem Trashed.restore {memo : MemoRow} {actorID : Int} {admin : Bool}
    (h : Trashed before root at' between) (stored : before.memos.find? root = some memo)
    (live : memo.deletedTs = none) (allowed : MayRestore before memo actorID admin) :
    restoreDeletedMemo between root actorID admin = .ok { between with
      memos := updateDeletedTs between.memos (memoCommentTree between root)
        (fun memo => decide (memo.deletedTs = some at')) none } := by
  obtain ⟨actor, known, active, permitted⟩ := allowed
  have found : between.memos.find? root = some (memo.withDeletedTs (some at')) := by
    rw [h.memos root (root_mem_memoCommentTree before root), stored, Option.map_some,
      trashed_of_live live]
  refine bind_eq_ok.mpr ⟨actor, orElse_eq_ok.mpr (h.users ▸ known), ?_⟩
  refine bind_eq_ok.mpr ⟨(), require_eq_ok.mpr (decide_eq_true active), ?_⟩
  refine bind_eq_ok.mpr ⟨_, orElse_eq_ok.mpr found, ?_⟩
  refine bind_eq_ok.mpr ⟨(), require_eq_ok.mpr ?_, ?_⟩
  · show (decide (memo.creatorID = actorID) || (admin && decide (actor.role = .Admin))) = true
    rcases permitted with creator | ⟨asked, admin'⟩
    · simp [creator]
    · simp [asked, admin']
  · refine bind_eq_ok.mpr ⟨at', orElse_eq_ok.mpr rfl, ?_⟩
    refine bind_eq_ok.mpr ⟨(), require_eq_ok.mpr ?_, rfl⟩
    exact decide_eq_true (count_parentUnavailable h.parents)

/-- A deletion and the restoration of its root, with operations on other trees in between. -/
theorem restore_undoes_deletion {memo : MemoRow} {actorID : Int} {admin : Bool}
    (stored : before.memos.find? root = some memo) (live : memo.deletedTs = none)
    (fresh : ∀ id ∈ memoCommentTree before root, before.deletedTs id ≠ some at')
    (parents : ParentsLive before root)
    (outside : ∀ r ∈ before.relations, r.memoID = root → r.type = .Comment →
      r.relatedMemoID ∉ memoCommentTree before root)
    (allowed : MayRestore before memo actorID admin)
    (run : Runs.Run (TrashOperation.perform readable) (fun db action => Elsewhere root db action.1)
      (softDeleteMemoSet before root at') between) :
    (∀ id ∈ memoCommentTree before root, ∀ memo, between.memos.find? id = some memo →
      memo.deletedTs.isSome) ∧
    ∃ restored, restoreDeletedMemo between root actorID admin = .ok restored ∧
      (∀ id ∈ memoCommentTree before root, restored.memos.find? id = before.memos.find? id) ∧
      ∀ id ∉ memoCommentTree before root, restored.memos.find? id = between.memos.find? id := by
  have trashed : Trashed before root at' between :=
    run.invariant (trashed_softDeleteMemoSet parents outside)
      fun _ _ _ h elsewhere next => h.perform elsewhere next
  refine ⟨fun id inside memo found => ?_, _, trashed.restore stored live allowed,
    fun id inside => ?_, fun id outside => ?_⟩
  · rw [trashed.memos id inside] at found
    obtain ⟨old, -, rfl⟩ := Option.map_eq_some_iff.mp found
    exact isSome_deletedTs_trashed old
  · refine (find?_restored id).trans ?_
    rw [if_pos ((trashed.mem_tree id).mpr inside), trashed.memos id inside, Option.map_map]
    have same := fresh id inside
    unfold Tables.deletedTs at same
    cases found : before.memos.find? id with
    | none => rfl
    | some old =>
        rw [found] at same
        exact congrArg some (untrashed_trashed same)
  · refine (find?_restored id).trans ?_
    rw [if_neg fun inside => outside ((trashed.mem_tree id).mp inside)]

/-! ### A memo with a comment -/

instance (root : Int) (db : Tables) (operation : TrashOperation) :
    Decidable (Elsewhere root db operation) :=
  inferInstanceAs (Decidable (_ ∧ _))

def commentTables : Tables :=
  { pollTables with
    memos := ⟨[pollMemo, .withDefaults 8 "soup" 5 .Public none, .withDefaults 9 "tea" 4 .Public none],
      by decide, by decide⟩
    relations := ⟨[⟨8, 7, .Comment⟩], by decide, by decide⟩ }

def intoTrash (id actor : Int) : TrashOperation :=
  .delete ⟨some 5, false, id, actor, false⟩

/-- The other memo is trashed at the same time and purged in between. -/
theorem restore_undoes_deletion_commented : ∃ between restored,
    Runs.follow (TrashOperation.perform fun _ => true)
      (fun db action => Elsewhere 7 db action.1) (softDeleteMemoSet commentTables 7 5)
      [(intoTrash 9 4, false), (.purge 9, false)] = some between ∧
    restoreDeletedMemo between 7 4 false = .ok restored ∧
    ∀ id ∈ memoCommentTree commentTables 7,
      restored.memos.find? id = commentTables.memos.find? id := by
  have parents : ParentsLive commentTables 7 := by
    intro r hr _ _
    rw [List.mem_singleton.mp hr]
    exact ⟨pollMemo, rfl, rfl⟩
  have allowed : MayRestore commentTables pollMemo 4 false := ⟨_, rfl, rfl, .inl rfl⟩
  have run : ∃ between, Runs.follow (TrashOperation.perform fun _ => true)
      (fun db action => Elsewhere 7 db action.1) (softDeleteMemoSet commentTables 7 5)
      [(intoTrash 9 4, false), (.purge 9, false)] = some between := ⟨_, rfl⟩
  obtain ⟨between, run⟩ := run
  obtain ⟨-, restored, done, same, -⟩ := restore_undoes_deletion rfl rfl (by decide) parents
    (by decide) allowed (Runs.run_of_follow run)
  exact ⟨between, restored, run, done, same⟩

/-- The comment has been trashed by itself before, at the time of the deletion: restoring the
memo brings it back too. -/
theorem restored_comment_trashed_before : ∃ before deleted restored,
    TrashOperation.perform (fun _ => true) commentTables (intoTrash 8 5, false) = some before ∧
    before.deletedTs 7 = none ∧ before.deletedTs 8 = some 5 ∧
    TrashOperation.perform (fun _ => true) before (intoTrash 7 4, false) = some deleted ∧
    restoreDeletedMemo deleted 7 4 false = .ok restored ∧ restored.deletedTs 8 = none :=
  ⟨_, _, _, rfl, rfl, rfl, rfl, rfl, rfl⟩

end Memos.Store

/-
An article is imported once.

The record of an import is inserted in the transaction that creates the memo, and its key is
the user, the source and the article.  So the records and the memos that were created for
articles are the same after every step of whatever worker: the one that comes second fails as
a whole.  Whether a worker has asked before makes no difference to this.
-/
import Memos.Api.BlogImport
import Memos.Proofs.Api.MemoCreate
import Memos.Proofs.Api.MemoAudience
import Memos.Lib.Fallible

namespace Memos.Api.BlogImport

open Store Access

/-! ### The mutation of an import -/

def importRow (importHash : String → String) (userID memoID now : Int) (record : MemoImportRecord) :
    MemoImportRow :=
  { userID
    sourceHash := importHash record.source
    sourceIDHash := importHash record.sourceID
    source := record.source
    sourceID := record.sourceID
    memoID
    jobID := record.jobID
    createdTs := now }

def importKey (r : MemoImportRow) : ImportKey := (r.userID, r.source, r.sourceID)

section Mutation

variable {importHash : String → String} {validUID readable : String → Bool} {db db' : Tables}
  {now : Int} {mutation : MemoMutation} {record : MemoImportRecord} {create : MemoCreate}

theorem recordMemoImport_records (recorded : mutation.importRecord = some record)
    (h : recordMemoImport importHash db now mutation = .ok db') :
    (db'.memos.rows.map fun m => (m.id, m.creatorID)) = (db.memos.rows.map fun m => (m.id, m.creatorID)) ∧
      db.imports.insert (importRow importHash mutation.memoCreatorID mutation.memoID now record) =
        .ok db'.imports := by
  unfold recordMemoImport at h
  rw [recorded] at h
  obtain ⟨_, -, h⟩ := bind_eq_ok.mp h
  obtain ⟨_, -, h⟩ := bind_eq_ok.mp h
  obtain ⟨_, -, h⟩ := bind_eq_ok.mp h
  obtain ⟨_, -, h⟩ := bind_eq_ok.mp h
  obtain ⟨memos, written, h⟩ := bind_eq_ok.mp h
  obtain ⟨imports, inserted, h⟩ := bind_eq_ok.mp h
  rw [pure_eq_ok] at h
  rw [← h]
  have rows := Keyed.Table.rows_of_ofRows (of_constrained written)
  refine ⟨?_, of_constrained inserted⟩
  show memos.rows.map _ = _
  rw [rows, List.map_map]
  refine List.map_congr_left fun memo _ => ?_
  dsimp only [Function.comp_apply]
  split
  · rfl
  · rfl

theorem apart_of_insert {t t' : Keyed.Table MemoImportRow.schema} {row : MemoImportRow}
    (h : t.insert row = .ok t') : ∀ r ∈ t, r.keys ≠ row.keys := by
  intro r stored same
  have separate := t'.separate
  rw [Keyed.Table.rows_of_ofRows h, List.pairwise_append] at separate
  have apart := separate.2.2 r stored row (List.mem_singleton_self row)
  rw [MemoImportRow.schema.clash_of_key r row same] at apart
  cases apart

theorem newMemos_self (db : Tables) : newMemos db db = [] := by
  unfold newMemos
  rw [List.filter_eq_nil_iff]
  intro id mem
  simpa using mem

structure Imported (importHash : String → String) (db db' : Tables) (now : Int) (userID : Int)
    (record : MemoImportRecord) (memo : MemoRow) : Prop where
  stored : memo ∈ db'.memos
  creator : memo.creatorID = userID
  fresh : ∀ m ∈ db.memos, m.id ≠ memo.id
  news : newMemos db db' = [memo.id]
  inserted : db.imports.insert (importRow importHash userID memo.id now record) = .ok db'.imports

theorem applyMemoMutation_imports (creating : mutation.memoCreate = some create)
    (recorded : mutation.importRecord = some record)
    (h : applyMemoMutation validUID readable importHash db now mutation = .ok db') :
    ∃ memo, Imported importHash db db' now create.creatorID record memo := by
  obtain ⟨between, target, inserted, wrote⟩ := applyMemoMutation_inserts creating h
  obtain ⟨owners, row⟩ := recordMemoImport_records (inserted.record.trans recorded) wrote
  rw [inserted.rows, List.map_append, List.map_singleton] at owners
  rw [inserted.imports, inserted.creator] at row
  have mem : (target.memoID, create.creatorID) ∈ db'.memos.rows.map fun m => (m.id, m.creatorID) := by
    rw [owners]
    exact List.mem_append_right _ (List.mem_singleton_self _)
  obtain ⟨memo, stored, same⟩ := List.mem_map.mp mem
  rw [Prod.mk.injEq] at same
  obtain ⟨id, creator⟩ := same
  have ids : db'.memos.rows.map MemoRow.id = db.memos.rows.map MemoRow.id ++ [memo.id] := by
    have first := congrArg (List.map Prod.fst) owners
    rw [List.map_append, List.map_map, List.map_map] at first
    rw [id]
    exact first
  have fresh : ∀ m ∈ db.memos, m.id ≠ memo.id := by
    rw [id]
    exact inserted.fresh
  refine ⟨memo, stored, creator, fresh, ?_, ?_⟩
  · have unknown : (db.memos.rows.map MemoRow.id).contains memo.id = false := by
      rw [List.contains_eq_mem, decide_eq_false_iff_not]
      intro known
      obtain ⟨m, mem, same⟩ := List.mem_map.mp known
      exact fresh m mem same
    unfold newMemos
    rw [ids, List.filter_append, List.filter_eq_nil_iff.mpr (fun id mem => by simpa using mem),
      List.nil_append, List.filter_singleton, unknown]
    rfl
  · rw [id]
    exact row

end Mutation

/-! ### What a step does -/

/-- The memo that is about to be created is that of the worker's user. -/
def Owned (w : Worker) : Prop :=
  ∀ entry prepared rest, w.phase = .applying entry prepared rest → prepared.memo.creatorID = w.user.id

section Steps

variable {service : APIV1Service} {imported : Tables → Int → String → String → Bool} {s t : System}

theorem prepareImport_creator {db : Tables} {now : Int} {user : UserRow} {request : RunImportRequest}
    {entry : ImportArticle} {content newUID : String} {attachments : List String}
    {prepared : PreparedMemoCreate}
    (h : prepareImport service db now user request entry content attachments newUID = .ok prepared) :
    prepared.memo.creatorID = user.id := by
  obtain ⟨_, -, h⟩ := Fallible.bind_ok.mp h
  obtain ⟨uid, -, h⟩ := Fallible.bind_ok.mp h
  obtain ⟨prepared', prepare, h⟩ := Fallible.bind_ok.mp h
  injection h with h
  have creator := prepareMemoCreate_creator prepare
  rw [← h]
  exact creator

theorem mem_setPhase {i : Nat} {w w' : Worker} {phase : Phase} (mem : w' ∈ (s.setPhase i w phase).workers) :
    w' ∈ s.workers ∨ w' = { w with phase } := (List.mem_or_eq_of_mem_set mem)

def importing (w : Worker) (entry : ImportArticle) : ImportKey := (w.user.id, w.job.source, entry.id)

structure Committed (service : APIV1Service) (s t : System) (now : Int) (w : Worker)
    (entry : ImportArticle) (prepared : PreparedMemoCreate) : Prop where
  applied : applyMemoMutation service.validUID service.readable service.importHash s.db now
    (importMutation now w.job entry prepared) = .ok t.db
  created : t.created = s.created ++ (newMemos s.db t.db).map fun id => (importing w entry, id)

/-- A step that applies a mutation does it as a whole, or leaves the database as it is. -/
theorem apply_cases {i : Nat} {now : Int} {interrupted : Bool} {w : Worker} {entry : ImportArticle}
    {prepared : PreparedMemoCreate} {rest : List ImportArticle} (at' : s.workers[i]? = some w)
    (phase : w.phase = .applying entry prepared rest)
    (next : step service imported s (.apply i now interrupted) = some t) :
    t.workers = (s.setPhase i w (.saving rest)).workers ∧
      (t.db = s.db ∧ t.created = s.created ∨ Committed service s t now w entry prepared) := by
  unfold step at next
  dsimp only at next
  rw [at', Option.bind_some, phase] at next
  dsimp only at next
  rw [Option.some_inj] at next
  rw [← next]
  refine ⟨rfl, ?_⟩
  cases applied : applyMemoMutation service.validUID service.readable service.importHash s.db now
    (importMutation now w.job entry prepared) with
  | error e =>
      left
      unfold performMemoMutation
      rw [applied]
      refine ⟨rfl, ?_⟩
      rw [newMemos_self]
      exact List.append_nil _
  | ok db =>
      cases interrupted with
      | true =>
          left
          unfold performMemoMutation
          rw [applied]
          refine ⟨rfl, ?_⟩
          rw [newMemos_self]
          exact List.append_nil _
      | false =>
          right
          unfold performMemoMutation
          rw [applied]
          exact ⟨applied, rfl⟩

/-- Only a worker that is about to apply a mutation does so. -/
theorem exists_applying {i : Nat} {now : Int} {interrupted : Bool}
    (next : step service imported s (.apply i now interrupted) = some t) :
    ∃ w entry prepared rest, s.workers[i]? = some w ∧ w.phase = .applying entry prepared rest := by
  unfold step at next
  obtain ⟨w, at', next⟩ := Option.bind_eq_some_iff.mp next
  split at next
  next entry prepared rest phase => exact ⟨w, entry, prepared, rest, at', phase⟩
  · cases next

structure Quiet (s t : System) : Prop where
  created : t.created = s.created
  imports : t.db.imports = s.db.imports
  workers : ∀ w ∈ t.workers, w ∈ s.workers ∨ Owned w

theorem quiet_setPhase {i : Nat} {w : Worker} {phase : Phase}
    (owned : ∀ entry prepared rest, phase = .applying entry prepared rest →
      prepared.memo.creatorID = w.user.id) : Quiet s (s.setPhase i w phase) := by
  refine ⟨rfl, rfl, fun w' mem => ?_⟩
  rcases mem_setPhase mem with mem | rfl
  · exact .inl mem
  · exact .inr owned

theorem quiet_of_step {a : Action} (other : ∀ i now interrupted, a ≠ .apply i now interrupted)
    (next : step service imported s a = some t) : Quiet s t := by
  unfold step at next
  cases a with
  | start job user request entries =>
      injection next with next
      rw [← next]
      refine ⟨rfl, rfl, fun w mem => ?_⟩
      rcases List.mem_append.mp mem with mem | mem
      · exact .inl mem
      · rw [List.mem_singleton.mp mem]
        exact .inr fun _ _ _ phase => by cases phase
  | check i cancelled =>
      obtain ⟨w, -, next⟩ := Option.bind_eq_some_iff.mp next
      split at next
      · injection next with next
        rw [← next]
        exact quiet_setPhase fun _ _ _ phase => by cases phase
      · injection next with next
        rw [← next]
        refine quiet_setPhase fun _ _ _ phase => ?_
        split at phase
        · cases phase
        · cases phase
      · cases next
  | look i =>
      obtain ⟨w, -, next⟩ := Option.bind_eq_some_iff.mp next
      split at next
      · injection next with next
        rw [← next]
        refine quiet_setPhase fun _ _ _ phase => ?_
        unfold afterLook at phase
        dsimp only at phase
        split at phase
        · cases phase
        · cases phase
      · cases next
  | prepare i now content attachments newUID =>
      obtain ⟨w, -, next⟩ := Option.bind_eq_some_iff.mp next
      split at next
      · split at next
        next prepared prepare =>
          injection next with next
          rw [← next]
          refine quiet_setPhase fun _ prepared' _ phase => ?_
          injection phase with _ same
          rw [← same]
          exact prepareImport_creator prepare
        · injection next with next
          rw [← next]
          exact quiet_setPhase fun _ _ _ phase => by cases phase
      · cases next
  | apply i now interrupted => exact absurd rfl (other i now interrupted)
  | save i =>
      obtain ⟨w, -, next⟩ := Option.bind_eq_some_iff.mp next
      split at next
      · injection next with next
        rw [← next]
        exact quiet_setPhase fun _ _ _ phase => by cases phase
      · cases next
  | fail i | crash i =>
      obtain ⟨w, -, rfl⟩ := Option.map_eq_some_iff.mp next
      exact quiet_setPhase fun _ _ _ phase => by cases phase
  | elsewhere db =>
      injection next with next
      rw [← next]
      exact ⟨rfl, rfl, fun w mem => .inl mem⟩

end Steps

/-! ### Records and memos -/

/-- The records are those of the memos that were created, and no two are for the same article. -/
structure Inv (importHash : String → String) (s : System) : Prop where
  hashes : ∀ r ∈ s.db.imports, r.sourceHash = importHash r.source ∧ r.sourceIDHash = importHash r.sourceID
  recorded : ∀ key id, (key, id) ∈ s.created ↔ ∃ r ∈ s.db.imports, importKey r = key ∧ r.memoID = id
  once : (s.created.map Prod.fst).Nodup
  owned : ∀ w ∈ s.workers, Owned w

section Runs

variable {service : APIV1Service} {imported : Tables → Int → String → String → Bool} {s t : System}

theorem inv_beforeImports (importHash : String → String) (db : Tables) :
    Inv importHash (beforeImports db) := by
  refine ⟨fun r mem => ?_, fun key id => ⟨fun mem => ?_, ?_⟩, List.nodup_nil, fun w mem => ?_⟩
  · exact absurd mem List.not_mem_nil
  · exact absurd mem List.not_mem_nil
  · rintro ⟨r, mem, -⟩
    exact absurd mem List.not_mem_nil
  · exact absurd mem List.not_mem_nil

theorem Inv.of_quiet {importHash : String → String} (inv : Inv importHash s) (quiet : Quiet s t) :
    Inv importHash t := by
  obtain ⟨hashes, recorded, once, owned⟩ := inv
  refine ⟨?_, ?_, ?_, fun w mem => ?_⟩
  · rw [quiet.imports]
    exact hashes
  · rw [quiet.imports, quiet.created]
    exact recorded
  · rw [quiet.created]
    exact once
  · exact (quiet.workers w mem).elim (owned w) id

/-- What is committed was not imported before, and is recorded. -/
theorem Inv.of_committed {now : Int} {w : Worker} {entry : ImportArticle}
    {prepared : PreparedMemoCreate} (inv : Inv service.importHash s)
    (owner : prepared.memo.creatorID = w.user.id)
    (committed : Committed service s t now w entry prepared) :
    (∀ id, (importing w entry, id) ∉ s.created) ∧
      ∃ memo ∈ t.db.memos, memo.creatorID = w.user.id ∧ (∀ m ∈ s.db.memos, m.id ≠ memo.id) ∧
        t.created = s.created ++ [(importing w entry, memo.id)] ∧
        ∀ r, r ∈ t.db.imports ↔ r ∈ s.db.imports ∨
          r = importRow service.importHash w.user.id memo.id now
            { source := w.job.source, sourceID := entry.id, jobID := w.job.id,
              createdTs := entry.created, updatedTs := entry.updated } := by
  obtain ⟨memo, done⟩ := applyMemoMutation_imports rfl rfl committed.applied
  have creator := done.creator
  have inserted := done.inserted
  rw [owner] at creator inserted
  refine ⟨fun id mem => ?_, memo, done.stored, creator, done.fresh, ?_, fun r => ?_⟩
  · obtain ⟨r, stored, same, -⟩ := (inv.recorded _ _).mp mem
    obtain ⟨source, sourceID⟩ := inv.hashes r stored
    rw [importKey, importing, Prod.mk.injEq, Prod.mk.injEq] at same
    obtain ⟨user, sameSource, sameID⟩ := same
    refine apart_of_insert inserted r stored ?_
    rw [MemoImportRow.keys, user, source, sourceID, sameSource, sameID]
    rfl
  · have created := committed.created
    rw [done.news] at created
    exact created
  · exact Keyed.Table.mem_insert inserted

theorem Inv.step {a : Action} (inv : Inv service.importHash s)
    (next : BlogImport.step service imported s a = some t) : Inv service.importHash t := by
  by_cases other : ∀ i now interrupted, a ≠ .apply i now interrupted
  · exact inv.of_quiet (quiet_of_step other next)
  · push Not at other
    obtain ⟨i, now, interrupted, rfl⟩ := other
    obtain ⟨w, entry, prepared, rest, at', phase⟩ := exists_applying next
    obtain ⟨workers, unchanged | committed⟩ := apply_cases at' phase next
    · refine inv.of_quiet ⟨unchanged.2, by rw [unchanged.1], fun w' mem => ?_⟩
      rw [workers] at mem
      exact (quiet_setPhase fun _ _ _ phase => by cases phase).workers w' mem
    · have owner := inv.owned w (List.mem_of_getElem? at') entry prepared rest phase
      obtain ⟨first, memo, -, -, -, created, imports⟩ := inv.of_committed owner committed
      refine ⟨fun r mem => ?_, fun key id => ?_, ?_, fun w' mem => ?_⟩
      · rcases (imports r).mp mem with mem | rfl
        · exact inv.hashes r mem
        · exact ⟨rfl, rfl⟩
      · rw [created, List.mem_append, List.mem_singleton, Prod.mk.injEq, inv.recorded]
        constructor
        · rintro (⟨r, mem, same⟩ | ⟨rfl, rfl⟩)
          · exact ⟨r, (imports r).mpr (.inl mem), same⟩
          · exact ⟨_, (imports _).mpr (.inr rfl), rfl, rfl⟩
        · rintro ⟨r, mem, same, sameID⟩
          rcases (imports r).mp mem with mem | rfl
          · exact .inl ⟨r, mem, same, sameID⟩
          · exact .inr ⟨same.symm, sameID.symm⟩
      · rw [created, List.map_append, List.map_singleton, List.nodup_append]
        refine ⟨inv.once, List.nodup_singleton _, ?_⟩
        intro key mem other own same
        obtain ⟨⟨key', id⟩, mem', rfl⟩ := List.mem_map.mp mem
        rw [List.mem_singleton] at own
        dsimp only at same
        rw [same, own] at mem'
        exact first id mem'
      · rw [workers] at mem
        rcases (quiet_setPhase fun _ _ _ phase => by cases phase).workers w' mem with mem | owned
        · exact inv.owned w' mem
        · exact owned

theorem isMemoImported_iff {importHash : String → String} (injective : Function.Injective importHash)
    (inv : Inv importHash s) (userID : Int) (source id : String) :
    isMemoImported importHash s.db userID source id = true ↔
      ∃ memoID, ((userID, source, id), memoID) ∈ s.created := by
  unfold isMemoImported
  rw [Keyed.Table.any_eq_true]
  constructor
  · rintro ⟨r, stored, same⟩
    rw [Bool.and_eq_true, Bool.and_eq_true, decide_eq_true_eq, decide_eq_true_eq,
      decide_eq_true_eq] at same
    obtain ⟨⟨user, source'⟩, id'⟩ := same
    obtain ⟨hash, hashID⟩ := inv.hashes r stored
    refine ⟨r.memoID, (inv.recorded _ _).mpr ⟨r, stored, ?_, rfl⟩⟩
    rw [importKey, user, injective (hash.symm.trans source'), injective (hashID.symm.trans id')]
  · rintro ⟨memoID, mem⟩
    obtain ⟨r, stored, same, -⟩ := (inv.recorded _ _).mp mem
    rw [importKey, Prod.mk.injEq, Prod.mk.injEq] at same
    obtain ⟨user, source', id'⟩ := same
    obtain ⟨hash, hashID⟩ := inv.hashes r stored
    refine ⟨r, stored, ?_⟩
    rw [hash, hashID, user, source', id']
    simp

end Runs

/-- In whatever order workers take their steps, whatever they are told when they ask, and
wherever they stop: no two memos are created for the same article of a user, the records are
those of the memos that were created, and a worker either creates the memo of an article that
had none or leaves the database as it is. -/
theorem imported_once (service : APIV1Service) (injective : Function.Injective service.importHash)
    (imported : Tables → Int → String → String → Bool) (db : Tables) (s : System)
    (run : Runs.Run (step service imported) (fun _ _ => True) (beforeImports db) s) :
    (s.created.map Prod.fst).Nodup ∧
    (∀ key memoID, (key, memoID) ∈ s.created ↔
      ∃ r ∈ s.db.imports, importKey r = key ∧ r.memoID = memoID) ∧
    (∀ userID source id, isMemoImported service.importHash s.db userID source id = true ↔
      ∃ memoID, ((userID, source, id), memoID) ∈ s.created) ∧
    ∀ i now interrupted w entry prepared rest t, s.workers[i]? = some w →
      w.phase = .applying entry prepared rest →
      step service imported s (.apply i now interrupted) = some t →
      (t.db = s.db ∧ t.created = s.created) ∨
      ((∀ memoID, (importing w entry, memoID) ∉ s.created) ∧
        ∃ memo ∈ t.db.memos, memo.creatorID = w.user.id ∧ (∀ m ∈ s.db.memos, m.id ≠ memo.id) ∧
          t.created = s.created ++ [(importing w entry, memo.id)]) := by
  have inv : Inv service.importHash s :=
    run.invariant (inv_beforeImports service.importHash db) fun _ _ _ inv _ next => inv.step next
  refine ⟨inv.once, inv.recorded, isMemoImported_iff injective inv, ?_⟩
  intro i now interrupted w entry prepared rest t at' phase next
  obtain ⟨-, unchanged | committed⟩ := apply_cases at' phase next
  · exact .inl unchanged
  · have owner := inv.owned w (List.mem_of_getElem? at') entry prepared rest phase
    obtain ⟨first, memo, stored, creator, fresh, created, -⟩ := inv.of_committed owner committed
    exact .inr ⟨first, memo, stored, creator, fresh, created⟩

/-! ### A job that is retried -/

def lea : UserRow := { UserRow.withDefaults 5 "lea" with role := .Admin }

def blogTables : Tables := { secretTables with users := ⟨[lea], by decide, by decide⟩ }

def firstArticle : ImportArticle where
  id := "first"
  content := "Hello"
  category := ""
  created := 10
  updated := 10
  draft := false
  isPrivate := false
  skipReason := ""

def blogJob : Job := ⟨"job", "https://blog.example"⟩

def importAll : RunImportRequest := ⟨none, "PUBLIC", ""⟩

def racingActions : List Action :=
  [.start blogJob lea importAll [firstArticle], .start blogJob lea importAll [firstArticle],
    .check 0 false, .check 1 false, .look 0, .look 1,
    .prepare 0 60 "Hello" [] "hello", .prepare 1 60 "Hello" [] "hello-again", .apply 1 61 false]

/-- The second worker has created the memo, and the first one can only fail. -/
theorem imported_once_retry : ∃ s,
    Runs.Run (step plainService (isMemoImported id)) (fun _ _ => True) (beforeImports blogTables) s ∧
      s.created = [((5, "https://blog.example", "first"), 8)] ∧
      isMemoImported id s.db 5 "https://blog.example" "first" = true ∧
      ∀ t, step plainService (isMemoImported id) s (.apply 0 62 false) = some t →
        t.db = s.db ∧ t.created = s.created := by
  obtain ⟨s, follows, created, applying⟩ : ∃ s,
      Runs.follow (step plainService (isMemoImported id)) (fun _ _ => True) (beforeImports blogTables)
        racingActions = some s ∧ s.created = [((5, "https://blog.example", "first"), 8)] ∧
      ∃ w prepared, s.workers[0]? = some w ∧ w.phase = .applying firstArticle prepared [] ∧
        importing w firstArticle = (5, "https://blog.example", "first") :=
    ⟨_, rfl, rfl, _, _, rfl, rfl, rfl⟩
  have run := Runs.run_of_follow follows
  obtain ⟨-, -, asked, applies⟩ :=
    imported_once plainService Function.injective_id (isMemoImported id) blogTables s run
  refine ⟨s, run, created, ?_, fun t next => ?_⟩
  · refine (asked 5 "https://blog.example" "first").mpr ⟨8, ?_⟩
    rw [created]
    exact List.mem_singleton_self _
  · obtain ⟨w, prepared, here, phase, key⟩ := applying
    rcases applies 0 62 false w firstArticle prepared [] t here phase next with same | ⟨first, -⟩
    · exact same
    · refine absurd ?_ (first 8)
      rw [created, key]
      exact List.mem_singleton_self _

end Memos.Api.BlogImport

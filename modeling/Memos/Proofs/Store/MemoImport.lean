/-
When a user has one running import.

A running job and its lock belong together: whoever takes the lock away has taken the job
out of its running state before, and while the lock is there no second job of the user can
be created.  The one write that does not care is the report a worker saves.  It writes the
worker's copy of the state, whatever the row says by now, so a worker that was interrupted
while it was busy with an article makes its job run again, without a lock and beside the
job that has taken its place.
-/
import Memos.Store.MemoImport

namespace Memos.Store.Imports

open Runs

/-! ### Rows after a statement -/

theorem mem_updateJobs {jobs : Keyed.Table MemoImportJob.schema} {p : MemoImportJob → Bool}
    {change : JobChange} {job : MemoImportJob} :
    job ∈ updateJobs jobs p change ↔ ∃ old ∈ jobs, (if p old then change.apply old else old) = job := by
  rw [Keyed.Table.mem_def]
  exact List.mem_map

theorem origin_of_update {jobs : Keyed.Table MemoImportJob.schema} {p : MemoImportJob → Bool}
    {change : JobChange} {job : MemoImportJob} (h : job ∈ updateJobs jobs p change) :
    ∃ old ∈ jobs, job.id = old.id ∧ job.userID = old.userID ∧
      (p old = true ∧ job.state = (change.apply old).state ∨ p old = false ∧ job.state = old.state) := by
  obtain ⟨old, stored, rfl⟩ := mem_updateJobs.mp h
  refine ⟨old, stored, ?_⟩
  by_cases chosen : p old = true
  · rw [if_pos chosen]
    exact ⟨change.id old, change.userID old, .inl ⟨chosen, rfl⟩⟩
  · rw [if_neg chosen]
    exact ⟨rfl, rfl, .inr ⟨by simpa using chosen, rfl⟩⟩

/-- And no row is lost. -/
theorem row_after_update {jobs : Keyed.Table MemoImportJob.schema} (p : MemoImportJob → Bool)
    (change : JobChange) {old : MemoImportJob} (stored : old ∈ jobs) :
    ∃ job ∈ updateJobs jobs p change, job.id = old.id := by
  refine ⟨_, mem_updateJobs.mpr ⟨old, stored, rfl⟩, ?_⟩
  split
  · exact change.id old
  · rfl

/-! ### Locks -/

def Locked (db : Tables) : Prop :=
  ∀ job ∈ db.jobs, job.state = .running → ⟨job.userID, job.id⟩ ∈ db.locks

theorem Locked.single {db : Tables} (locked : Locked db) {job other : MemoImportJob}
    (stored : job ∈ db.jobs) (stored' : other ∈ db.jobs) (running : job.state = .running)
    (running' : other.state = .running) (user : job.userID = other.userID) : job = other := by
  have lock := locked job stored running
  have lock' := locked other stored' running'
  have same := Keyed.Table.eq_of_key lock lock' user
  have id : job.id = other.id := congrArg MemoImportLock.jobID same
  exact Keyed.Table.eq_of_key stored stored' id

/-- A statement that makes no job run keeps the locks of those that do. -/
theorem Locked.update {db : Tables} (locked : Locked db) {p : MemoImportJob → Bool}
    (change : JobChange)
    (quiet : ∀ old ∈ db.jobs, p old = true → (change.apply old).state = .running →
      old.state = .running) : Locked { db with jobs := updateJobs db.jobs p change } := by
  intro job stored running
  obtain ⟨old, stored', id, user, state⟩ := origin_of_update stored
  have running' : old.state = .running := by
    rcases state with ⟨chosen, same⟩ | ⟨-, same⟩
    · exact quiet old stored' chosen (same.symm.trans running)
    · exact same.symm.trans running
  rw [id, user]
  exact locked old stored' running'

theorem createMemoImportJob_spec {db db' : Tables} {now : Int} {j : MemoImportJob}
    (created : createMemoImportJob db now j = .ok db') :
    (db.locks.delete fun lock => (updateJobs db.jobs (isStale now) interrupt).any fun job =>
        decide (job.id = lock.jobID) && decide (job.state ≠ .running)).insert ⟨j.userID, j.id⟩
      = .ok db'.locks ∧
    (updateJobs db.jobs (isStale now) interrupt).insert { j with cancelRequested := false }
      = .ok db'.jobs := by
  unfold createMemoImportJob at created
  dsimp only at created
  cases locks : (db.locks.delete fun lock => (updateJobs db.jobs (isStale now) interrupt).any
      fun job => decide (job.id = lock.jobID) && decide (job.state ≠ .running)).insert
      ⟨j.userID, j.id⟩ with
  | error e =>
      rw [locks] at created
      cases created
  | ok locks' =>
      cases jobs : (updateJobs db.jobs (isStale now) interrupt).insert
          { j with cancelRequested := false } with
      | error e =>
          rw [locks, jobs] at created
          cases created
      | ok jobs' =>
          rw [locks, jobs] at created
          injection created with created
          rw [← created]
          exact ⟨rfl, rfl⟩

theorem Locked.create {db db' : Tables} (locked : Locked db) {now : Int} {j : MemoImportJob}
    (created : createMemoImportJob db now j = .ok db') : Locked db' := by
  have recovered := locked.update (p := isStale now) interrupt
    fun _ _ _ running => by cases running
  obtain ⟨locks, jobs⟩ := createMemoImportJob_spec created
  intro job stored running
  rw [Keyed.Table.mem_insert locks]
  rcases (Keyed.Table.mem_insert jobs).mp stored with stored | rfl
  · left
    rw [Keyed.Table.mem_delete]
    refine ⟨recovered job stored running, ?_⟩
    rw [Keyed.Table.any_eq_false]
    intro other stored'
    rw [Bool.and_eq_false_iff]
    by_cases same : other.id = job.id
    · rw [Keyed.Table.eq_of_key stored' stored same, running]
      exact .inr rfl
    · exact .inl (decide_eq_false same)
  · exact .inr rfl

def rowRuns (db : Tables) (j : MemoImportJob) : Bool :=
  db.jobs.rows.all fun job => !isJob j job || decide (job.state = .running)

theorem rowRuns_iff {db : Tables} {j : MemoImportJob} :
    rowRuns db j = true ↔ ∀ job ∈ db.jobs, isJob j job = true → job.state = .running := by
  unfold rowRuns
  rw [List.all_eq_true]
  refine forall₂_congr fun job _ => ?_
  cases isJob j job with
  | true => simp
  | false => simp

theorem Locked.save {db : Tables} (locked : Locked db) {now : Int} {j : MemoImportJob}
    (row : j.state = .running → rowRuns db j = true) :
    Locked (saveMemoImportJob db now j false) := by
  refine locked.update _ fun old stored chosen running => ?_
  exact rowRuns_iff.mp (row running) old stored chosen

theorem Locked.finish {db : Tables} (locked : Locked db) {now : Int} {j : MemoImportJob}
    (terminal : j.state ≠ .running) : Locked (saveMemoImportJob db now j true) := by
  intro job stored running
  have kept : ⟨job.userID, job.id⟩ ∈ db.locks :=
    locked.update (p := isJob j) (saved now j)
      (fun _ _ _ running => absurd running terminal) job stored running
  show _ ∈ db.locks.delete _
  rw [Keyed.Table.mem_delete]
  refine ⟨kept, ?_⟩
  obtain ⟨old, -, id, user, state⟩ := origin_of_update stored
  rcases state with ⟨-, same⟩ | ⟨other, -⟩
  · exact absurd (same.symm.trans running) terminal
  · show (decide (job.userID = j.userID) && decide (job.id = j.id)) = false
    rw [id, user, Bool.and_comm]
    exact other

/-! ### Jobs that are over -/

def Over (db : Tables) (id : String) : Prop := ∃ job ∈ db.jobs, job.id = id ∧ job.state ≠ .running

theorem Over.update {db : Tables} {id : String} (gone : Over db id) {p : MemoImportJob → Bool}
    (change : JobChange)
    (quiet : ∀ old ∈ db.jobs, p old = true → (change.apply old).state = .running →
      old.state = .running) : Over { db with jobs := updateJobs db.jobs p change } id := by
  obtain ⟨old, stored, here, stopped⟩ := gone
  obtain ⟨job, stored', same⟩ := row_after_update p change stored
  refine ⟨job, stored', same.trans here, fun running => stopped ?_⟩
  obtain ⟨origin, stored'', id', -, state⟩ := origin_of_update stored'
  have same_row : origin = old := Keyed.Table.eq_of_key stored'' stored (id'.symm.trans same)
  rw [same_row] at state
  rcases state with ⟨chosen, state⟩ | ⟨-, state⟩
  · exact quiet old stored chosen (state.symm.trans running)
  · exact state.symm.trans running

theorem Over.create {db db' : Tables} {id : String} (gone : Over db id) {now : Int}
    {j : MemoImportJob} (created : createMemoImportJob db now j = .ok db') : Over db' id := by
  obtain ⟨job, stored, here, stopped⟩ := gone.update (p := isStale now) interrupt
    fun _ _ _ running => by cases running
  obtain ⟨-, jobs⟩ := createMemoImportJob_spec created
  exact ⟨job, (Keyed.Table.mem_insert jobs).mpr (.inl stored), here, stopped⟩

/-- A job that is over and is there runs nowhere in the table. -/
theorem Over.stopped {db : Tables} {job : MemoImportJob} (stored : job ∈ db.jobs)
    (gone : Over db job.id) : job.state ≠ .running := by
  obtain ⟨other, stored', same, stopped⟩ := gone
  rw [← Keyed.Table.eq_of_key stored' stored same]
  exact stopped

/-! ### Steps -/

def leased (s : State) : Action → Bool
  | .save i _ _ =>
      match s.workers[i]? with
      | some (.saving job _) => rowRuns s.db job
      | _ => true
  | _ => true

/-- A worker saves its report only where the row of its job is still running. -/
def Leased (s : State) (a : Action) : Prop := leased s a = true

instance (s : State) (a : Action) : Decidable (Leased s a) :=
  inferInstanceAs (Decidable (leased s a = true))

/-- A worker that leaves the loop takes no running job along. -/
def Terminal : Worker → Prop
  | .finishing job => job.state ≠ .running
  | _ => True

theorem terminal_leave (job : MemoImportJob) (state : ImportState) : Terminal (leave job state) := by
  show (if state = .running then ImportState.completed else state) ≠ .running
  split
  · exact nofun
  · assumption

theorem terminal_next (job : MemoImportJob) (articles : Nat) : Terminal (next job articles) := by
  cases articles with
  | zero => exact terminal_leave job job.state
  | succ articles => trivial

theorem terminal_advance {db : Tables} {worker worker' : Worker}
    (h : advance db worker = some worker') : Terminal worker' := by
  cases worker with
  | opening job articles =>
      injection h with h
      rw [← h]
      exact terminal_next job articles
  | checking job articles =>
      unfold advance at h
      dsimp only at h
      split at h
      · split at h
        · injection h with h
          rw [← h]
          exact terminal_leave job .cancelled
        · injection h with h
          rw [← h]
          trivial
      · injection h with h
        rw [← h]
        exact terminal_leave job .cancelled
  | importing job articles =>
      injection h with h
      rw [← h]
      trivial
  | saving job articles => cases h
  | finishing job => cases h
  | ended => cases h

structure Inv (s : State) : Prop where
  locked : Locked s.db
  terminal : ∀ worker ∈ s.workers, Terminal worker

/-- What a step does to the tables, and that its worker is as it should be. -/
theorem step_cases {s s' : State} {a : Action} (h : step s a = some s') (inv : Inv s)
    (leased : Leased s a) :
    (∀ worker ∈ s'.workers, Terminal worker) ∧
    (s'.db = s.db ∨
      (∃ now j, createMemoImportJob s.db now j = .ok s'.db) ∨
      (∃ now j, (j.state = .running → rowRuns s.db j = true) ∧
        s'.db = saveMemoImportJob s.db now j false) ∨
      (∃ now j, j.state ≠ .running ∧ s'.db = saveMemoImportJob s.db now j true) ∨
      ∃ p change, (∀ old, p old = true → (change.apply old).state = .running →
          old.state = .running) ∧ s'.db = { s.db with jobs := updateJobs s.db.jobs p change }) := by
  have set : ∀ {i : Nat} {worker : Worker}, Terminal worker →
      ∀ other ∈ (s.setWorker i worker).workers, Terminal other := by
    intro i worker ok other hother
    rcases List.mem_or_eq_of_mem_set hother with hother | rfl
    · exact inv.terminal other hother
    · exact ok
  cases a with
  | create id userID source articles requested now =>
      unfold step at h
      dsimp only at h
      split at h
      · rename_i db created
        injection h with h
        rw [← h]
        refine ⟨?_, .inr (.inl ⟨now, _, created⟩)⟩
        intro worker hworker
        rcases List.mem_append.mp hworker with hworker | hworker
        · exact inv.terminal worker hworker
        · rw [List.mem_singleton.mp hworker]
          trivial
      · injection h with h
        rw [← h]
        exact ⟨inv.terminal, .inl rfl⟩
  | cancel userID id =>
      injection h with h
      rw [← h]
      refine ⟨inv.terminal, .inr (.inr (.inr (.inr ⟨_, requestCancel, ?_, rfl⟩)))⟩
      exact fun old _ running => running
  | heartbeat i now =>
      obtain ⟨job, -, rfl⟩ := Option.map_eq_some_iff.mp h
      refine ⟨inv.terminal, .inr (.inr (.inr (.inr ⟨_, beat now, ?_, rfl⟩)))⟩
      exact fun old _ running => running
  | proceed i =>
      obtain ⟨worker', advanced, rfl⟩ := Option.map_eq_some_iff.mp h
      obtain ⟨worker, -, advanced⟩ := Option.bind_eq_some_iff.mp advanced
      exact ⟨set (terminal_advance advanced), .inl rfl⟩
  | save i now report =>
      unfold step at h
      dsimp only at h
      split at h
      · rename_i job articles here
        injection h with h
        rw [← h]
        refine ⟨set (terminal_next _ articles), .inr (.inr (.inl ⟨now, { job with report }, ?_, rfl⟩))⟩
        unfold Leased Imports.leased at leased
        dsimp only at leased
        rw [here] at leased
        exact fun _ => leased
      · cases h
  | finish i now report =>
      unfold step at h
      dsimp only at h
      split at h
      · rename_i job here
        injection h with h
        rw [← h]
        refine ⟨set (by trivial), .inr (.inr (.inr (.inl ⟨now, { job with report }, ?_, rfl⟩)))⟩
        exact inv.terminal _ (List.mem_of_getElem? here)
      · cases h
  | fail i =>
      unfold step at h
      dsimp only at h
      split at h
      all_goals
        first
        | (injection h with h; rw [← h]; exact ⟨set (terminal_leave _ _), .inl rfl⟩)
        | (injection h with h; rw [← h]; exact ⟨set (by trivial), .inl rfl⟩)
        | cases h
  | die i =>
      unfold step at h
      dsimp only at h
      split at h
      · injection h with h
        rw [← h]
        exact ⟨set (by trivial), .inl rfl⟩
      · cases h

theorem Inv.step {s s' : State} {a : Action} (inv : Inv s) (leased : Leased s a)
    (h : step s a = some s') : Inv s' := by
  obtain ⟨terminal, same | ⟨now, j, created⟩ | ⟨now, j, row, saved⟩ | ⟨now, j, gone, saved⟩ |
    ⟨p, change, quiet, updated⟩⟩ := step_cases h inv leased
  · exact ⟨same ▸ inv.locked, terminal⟩
  · exact ⟨inv.locked.create created, terminal⟩
  · exact ⟨saved ▸ inv.locked.save row, terminal⟩
  · exact ⟨saved ▸ inv.locked.finish gone, terminal⟩
  · exact ⟨updated ▸ inv.locked.update _ fun old _ => quiet old, terminal⟩

theorem Over.step {s s' : State} {a : Action} {id : String} (gone : Over s.db id) (inv : Inv s)
    (leased : Leased s a) (h : step s a = some s') : Over s'.db id := by
  obtain ⟨-, same | ⟨now, j, created⟩ | ⟨now, j, row, saved'⟩ | ⟨now, j, stopped, saved'⟩ |
    ⟨p, change, quiet, updated⟩⟩ := step_cases h inv leased
  · rw [same]
    exact gone
  · exact gone.create created
  · rw [saved']
    exact gone.update _ fun old stored chosen running =>
      rowRuns_iff.mp (row running) old stored chosen
  · have kept : Over { s.db with jobs := updateJobs s.db.jobs (isJob j) (saved now j) } id :=
      gone.update _ fun _ _ _ running => absurd running stopped
    rw [saved']
    exact kept
  · rw [updated]
    exact gone.update _ fun old _ => quiet old

/-! ### The result -/

/-- **When a user has one running import.**

Start from tables in which every running job has its lock, with no worker on its way.  In
every run in which a worker saves its report only while the row of its job is running, no
user ever has two running jobs; and a job that is over, by its worker or by a recovery,
does not run in any later state. -/
theorem single_runner {s t : State} (locked : Locked s.db) (idle : s.workers = [])
    (run : Run step Leased s t) :
    (∀ job ∈ t.db.jobs, ∀ other ∈ t.db.jobs, job.state = .running → other.state = .running →
      job.userID = other.userID → job = other) ∧
    ∀ u, Run step Leased t u → ∀ job ∈ t.db.jobs, job.state ≠ .running →
      ∀ later ∈ u.db.jobs, later.id = job.id → later.state ≠ .running := by
  have start : Inv s := ⟨locked, by rw [idle]; exact fun _ h => absurd h List.not_mem_nil⟩
  have inv : Inv t := run.invariant start fun _ _ _ inv leased next => inv.step leased next
  refine ⟨fun job stored other stored' running running' user =>
    inv.locked.single stored stored' running running' user, ?_⟩
  intro u rest job stored stopped later stored' same
  have both : Inv u ∧ Over u.db job.id := by
    refine rest.invariant (P := fun v => Inv v ∧ Over v.db job.id)
      ⟨inv, job, stored, rfl, stopped⟩ ?_
    intro v w a ⟨inv, gone⟩ leased next
    exact ⟨inv.step leased next, gone.step inv leased next⟩
  refine Over.stopped stored' ?_
  rw [same]
  exact both.2

/-! ### Two imports of one user -/

def noJobs : State where
  db := { jobs := Keyed.Table.empty, locks := Keyed.Table.empty }
  workers := []

def importAlone : List Action :=
  [.create "a" 1 "blog" 1 0 0, .proceed 0, .proceed 0, .proceed 0, .save 0 20 "one", .finish 0 21 "one"]

theorem single_runner_alone : ∃ t, follow step Leased noJobs importAlone = some t ∧
    t.db.jobs.rows.map MemoImportJob.state = [.completed] ∧
    ∀ u, Run step Leased t u → ∀ job ∈ t.db.jobs, job.state ≠ .running →
      ∀ later ∈ u.db.jobs, later.id = job.id → later.state ≠ .running := by
  refine ⟨_, rfl, rfl, ?_⟩
  have alone : follow step Leased noJobs importAlone = some _ := rfl
  exact (single_runner (fun _ h => absurd h List.not_mem_nil) rfl (run_of_follow alone)).2

/-- The first worker is at an article when the user asks for a second import. -/
def importTwice : List Action :=
  [.create "a" 1 "blog" 1 0 0, .proceed 0, .proceed 0, .proceed 0, .create "b" 1 "blog" 1 600 600]

theorem interrupted_job_runs : ∃ t u,
    follow step (fun _ _ => True) noJobs importTwice = some t ∧
    follow step (fun _ _ => True) t [.save 0 601 "one"] = some u ∧
    t.db.jobs.rows.map (fun job => (job.id, job.userID, job.state))
      = [("a", 1, .interrupted), ("b", 1, .running)] ∧
    u.db.jobs.rows.map (fun job => (job.id, job.userID, job.state))
      = [("a", 1, .running), ("b", 1, .running)] :=
  ⟨_, _, rfl, rfl, rfl, rfl⟩

end Memos.Store.Imports

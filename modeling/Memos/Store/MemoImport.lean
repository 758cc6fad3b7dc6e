/-
Import jobs.

A user imports articles with one job at a time.  The job is a row, and beside it stands a
lock that has the user as its primary key, so a second job of the same user cannot be
created.  The worker of a job goes through the articles, saves what it has done after
each of them, and in the end writes the last state of the job and gives the lock back.

A worker may die, and its lock with it would stay for ever.  Whoever creates a job
therefore first interrupts all jobs that have not been heard of for five minutes, and
takes their locks away.  A worker that still lives is not told.

One statement or transaction of the store is one step, and so is what a worker does
between two of them.
-/
import Memos.Lib.Keyed
import Memos.Lib.Runs

namespace Memos.Store.Imports

/-! ### Rows -/

inductive ImportState where
  | running
  | completed
  | cancelled
  | failed
  | interrupted
deriving DecidableEq

structure MemoImportJob where
  id : String
  userID : Int
  state : ImportState
  source : String
  report : String
  createdTs : Int
  updatedTs : Int
  cancelRequested : Bool := false
deriving DecidableEq

def MemoImportJob.schema : Keyed.Schema String MemoImportJob where
  key := MemoImportJob.id
  clash r s := r.id = s.id
  check _ := true
  clash_of_key r s h := by simp [h]

structure MemoImportLock where
  userID : Int
  jobID : String
deriving DecidableEq

def MemoImportLock.schema : Keyed.Schema Int MemoImportLock where
  key := MemoImportLock.userID
  clash r s := r.userID = s.userID
  check _ := true
  clash_of_key r s h := by simp [h]

structure Tables where
  jobs : Keyed.Table MemoImportJob.schema
  locks : Keyed.Table MemoImportLock.schema

/-! ### The store -/

/-- What an `UPDATE` of a job sets: everything but its id. -/
structure JobChange where
  apply : MemoImportJob → MemoImportJob
  id : ∀ job, (apply job).id = job.id
  userID : ∀ job, (apply job).userID = job.userID

def updateJobs (jobs : Keyed.Table MemoImportJob.schema) (p : MemoImportJob → Bool)
    (change : JobChange) : Keyed.Table MemoImportJob.schema :=
  jobs.modify p change.apply
    { key := change.id
      clash := fun r s => by simp [MemoImportJob.schema, change.id]
      check := fun _ => rfl }

def interrupt : JobChange where
  apply job := { job with state := .interrupted }
  id _ := rfl
  userID _ := rfl

/-- The first statement of `CreateMemoImportJob`: the jobs that are stale. -/
def isStale (now : Int) (job : MemoImportJob) : Bool :=
  job.state = .running && decide (job.updatedTs < now - 300)

def createMemoImportJob (db : Tables) (now : Int) (j : MemoImportJob) :
    Except Keyed.Violation Tables := do
  let jobs := updateJobs db.jobs (isStale now) interrupt
  let locks := db.locks.delete fun lock =>
    jobs.any fun job => decide (job.id = lock.jobID) && decide (job.state ≠ .running)
  let locks ← locks.insert ⟨j.userID, j.id⟩
  let jobs ← jobs.insert { j with cancelRequested := false }
  return { jobs, locks }

def getMemoImportJob (db : Tables) (userID : Int) (id : String) : Option MemoImportJob :=
  (db.jobs.find? id).filter fun job => decide (job.userID = userID)

def saved (now : Int) (j : MemoImportJob) : JobChange where
  apply job := { job with state := j.state, report := j.report, updatedTs := now }
  id _ := rfl
  userID _ := rfl

def isJob (j job : MemoImportJob) : Bool := decide (job.id = j.id) && decide (job.userID = j.userID)

def saveMemoImportJob (db : Tables) (now : Int) (j : MemoImportJob) (finished : Bool) : Tables where
  jobs := updateJobs db.jobs (isJob j) (saved now j)
  locks :=
    if finished then
      db.locks.delete fun lock => decide (lock.userID = j.userID) && decide (lock.jobID = j.id)
    else db.locks

def requestCancel : JobChange where
  apply job := { job with cancelRequested := true }
  id _ := rfl
  userID _ := rfl

def cancelMemoImport (db : Tables) (userID : Int) (id : String) : Tables :=
  { db with
    jobs := updateJobs db.jobs (fun job => decide (job.id = id) && decide (job.userID = userID)
      && decide (job.state = .running)) requestCancel }

def beat (now : Int) : JobChange where
  apply job := { job with updatedTs := now }
  id _ := rfl
  userID _ := rfl

def heartbeatMemoImport (db : Tables) (now : Int) (id : String) : Tables :=
  { db with
    jobs := updateJobs db.jobs (fun job => decide (job.id = id) && decide (job.state = .running))
      (beat now) }

/-! ### Workers -/

/-- The job a request creates, with the clock it reads. -/
def newJob (id : String) (userID : Int) (source : String) (now : Int) : MemoImportJob :=
  { id, userID, state := .running, source, report := "\x7b\"entries\":[]\x7d", createdTs := now,
    updatedTs := now }

/-- Where `runBlogImport` is, with its own copy of the job and the number of articles that
are left. -/
inductive Worker where
  | opening (job : MemoImportJob) (articles : Nat)
  /-- At the head of the loop, about to look whether somebody has cancelled the job. -/
  | checking (job : MemoImportJob) (articles : Nat)
  | importing (job : MemoImportJob) (articles : Nat)
  | saving (job : MemoImportJob) (articles : Nat)
  | finishing (job : MemoImportJob)
  | ended
deriving DecidableEq

def Worker.job? : Worker → Option MemoImportJob
  | .opening job _ | .checking job _ | .importing job _ | .saving job _ | .finishing job => some job
  | .ended => none

/-- Leaves the loop.  A job that is still running is completed. -/
def leave (job : MemoImportJob) (state : ImportState) : Worker :=
  .finishing { job with state := if state = .running then .completed else state }

def next (job : MemoImportJob) : Nat → Worker
  | 0 => leave job job.state
  | articles + 1 => .checking job articles

structure State where
  db : Tables
  workers : List Worker

def State.setWorker (s : State) (i : Nat) (worker : Worker) : State :=
  { s with workers := s.workers.set i worker }

inductive Action where
  /-- A request for a job: the clock of the request and that of the store. -/
  | create (id : String) (userID : Int) (source : String) (articles : Nat) (requested now : Int)
  | cancel (userID : Int) (id : String)
  | heartbeat (i : Nat) (now : Int)
  /-- The archive is open, the job is looked up, the article is done with. -/
  | proceed (i : Nat)
  | save (i : Nat) (now : Int) (report : String)
  | finish (i : Nat) (now : Int) (report : String)
  | fail (i : Nat)
  | die (i : Nat)

/-- A step of a worker that writes nothing. -/
def advance (db : Tables) : Worker → Option Worker
  | .opening job articles => some (next job articles)
  | .checking job articles =>
      match getMemoImportJob db job.userID job.id with
      | some current =>
          if current.cancelRequested then some (leave job .cancelled)
          else some (.importing job articles)
      | none => some (leave job .cancelled)
  | .importing job articles => some (.saving job articles)
  | .saving _ _ | .finishing _ | .ended => none

def step (s : State) : Action → Option State
  | .create id userID source articles requested now =>
      match createMemoImportJob s.db now (newJob id userID source requested) with
      | .ok db =>
          some { db, workers := s.workers ++ [.opening (newJob id userID source requested) articles] }
      | .error _ => some s
  | .cancel userID id => some { s with db := cancelMemoImport s.db userID id }
  | .heartbeat i now =>
      (s.workers[i]?.bind Worker.job?).map fun job =>
        { s with db := heartbeatMemoImport s.db now job.id }
  | .proceed i => (s.workers[i]?.bind (advance s.db)).map (s.setWorker i)
  | .save i now report =>
      match s.workers[i]? with
      | some (.saving job articles) =>
          let job := { job with report }
          some { s.setWorker i (next job articles) with db := saveMemoImportJob s.db now job false }
      | _ => none
  | .finish i now report =>
      match s.workers[i]? with
      | some (.finishing job) =>
          some { s.setWorker i .ended with db := saveMemoImportJob s.db now { job with report } true }
      | _ => none
  | .fail i =>
      match s.workers[i]? with
      | some (.opening job _) | some (.checking job _) | some (.importing job _)
      | some (.saving job _) => some (s.setWorker i (leave job .failed))
      | some (.finishing _) => some (s.setWorker i .ended)
      | _ => none
  | .die i => if i < s.workers.length then some (s.setWorker i .ended) else none

end Memos.Store.Imports

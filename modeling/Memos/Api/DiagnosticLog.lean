/-
The files of the log of what goes wrong in browsers.

The reports of a day go to the file of that day, and when it is full to files that carry the
time as well; in front of each report all files but the newest are removed.  A file is known by
the day and the time in its name.  What fails comes with the step that appends, and so does what
the sort makes of files of one age.
-/
import Memos.Api.FrontendDiagnostics

namespace Memos.Api.Diagnostics

/-- A name that `frontendDiagnosticFilePattern` matches. -/
structure LogName where
  date : String
  time : Option String
deriving DecidableEq

structure LogFile where
  name : LogName
  size : Nat
  modTime : Int

/-- `slices.SortFunc`, which is not stable. -/
structure SortFunc where
  sort : List LogFile → List LogFile
  perm : ∀ files, (sort files).Perm files
  newest : ∀ files, (sort files).Pairwise fun a b => b.modTime ≤ a.modTime

/-- The call of the operating system that fails, after so many files or bytes. -/
inductive Failure where
  | MkdirAll | Stat | StatRotated | ReadDir | Remove (files : Nat) | OpenFile
  | Write (bytes : Nat) | Sync | Close
deriving DecidableEq

structure Entry where
  id : String
  date : String
  time : String
  /-- That of the record with its line break. -/
  length : Nat
  SortFunc : SortFunc
  modTime : Int
  failure : Option Failure

/-- The files of a list that are removed, and whether they all are. -/
def Entry.remove (e : Entry) (old : List LogName) : List LogName × Bool :=
  match e.failure with
  | some (.Remove files) => (old.take files, decide (old.length ≤ files))
  | _ => (old, true)

structure DiagnosticLog where
  maxBytes : Nat
  maxFiles : Nat
  activeFile : Option LogName
  writer : FrontendDiagnosticWriter
  files : List LogFile
  /-- The reports that this process has saved. -/
  saved : List String

namespace DiagnosticLog

def size (s : DiagnosticLog) (name : LogName) : Option Nat :=
  (s.files.find? fun file => file.name = name).map LogFile.size

/-- The file for a record, if there can be one. -/
def filename (s : DiagnosticLog) (e : Entry) : Option LogName :=
  let filename := (s.activeFile.filter fun name => name.date = e.date).getD ⟨e.date, none⟩
  if e.failure = some .Stat then none
  else if (s.size filename).any fun size => s.maxBytes < size + e.length then
    let filename : LogName := ⟨e.date, some e.time⟩
    if (s.size filename).isSome ∨ e.failure = some .StatRotated then none else some filename
  else some filename

def prune (s : DiagnosticLog) (current : LogName) (e : Entry) : Bool × DiagnosticLog :=
  if e.failure = some .ReadDir then (false, s)
  else
    let files := e.SortFunc.sort (s.files.filter fun file => file.name ≠ current)
    let old := (files.drop (min files.length (s.maxFiles - 1))).map LogFile.name
    let (removed, pruned) := e.remove old
    (pruned, { s with files := s.files.filter fun file => file.name ∉ removed })

def write (s : DiagnosticLog) (name : LogName) (length : Nat) (modTime : Int) : DiagnosticLog :=
  { s with
    files := ⟨name, (s.size name).getD 0 + length, modTime⟩
      :: s.files.filter fun file => file.name ≠ name }

/-- Whether there is no error. -/
def append (s : DiagnosticLog) (e : Entry) : Bool × DiagnosticLog :=
  if e.id ∈ s.writer.seen then (true, s)
  else if e.failure = some .MkdirAll ∨ s.maxBytes < e.length then (false, s)
  else
    match s.filename e with
    | none => (false, s)
    | some name =>
        let (pruned, s) := s.prune name e
        if !pruned ∨ e.failure = some .OpenFile then (false, s)
        else
          match e.failure with
          | some (.Write bytes) => (false, s.write name (min bytes e.length) e.modTime)
          | some .Sync | some .Close => (false, s.write name e.length e.modTime)
          | _ =>
              let s := s.write name e.length e.modTime
              (true, { s with
                activeFile := some name
                writer := s.writer.remember e.id
                saved := s.saved ++ [e.id] })

inductive Event where
  | append (e : Entry)
  | allow (now : Int)
  /-- The process starts, whatever the one before it has left. -/
  | start (now : Int)

def next (s : DiagnosticLog) : Event → Option DiagnosticLog
  | .append e => some (s.append e).2
  | .allow now => some { s with writer := (s.writer.allow now).2 }
  | .start now =>
      some { s with activeFile := none, writer := newFrontendDiagnosticWriter now, saved := [] }

end DiagnosticLog

end Memos.Api.Diagnostics

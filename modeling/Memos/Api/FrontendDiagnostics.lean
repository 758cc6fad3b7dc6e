/-
The log of what goes wrong in browsers.

A browser may report an error, and the server appends the report to a log.  So that the log
is not flooded, a writer lets through as many reports as it has tokens, and gets a token
back every second.  A count of tokens is a rational number here; times and durations are in
nanoseconds.

A request reads the clock before it takes the lock, and appends its report later on, under
the lock again; in between any other request may do the same.  What the parsers make of a
request comes with it, and what becomes of the file comes with the step that appends.
-/
import Mathlib.Algebra.Order.Ring.Unbundled.Rat
import Mathlib.Data.Finset.Erase
import Mathlib.Data.Finset.Insert

namespace Memos.Api.Diagnostics

/-! ### Times -/

def Second : Int := 1000000000

def minDuration : Int := -2 ^ 63
def maxDuration : Int := 2 ^ 63 - 1

/-- The duration from `u` to `t`, or the one closest to it. -/
def Sub (t u : Int) : Int := max minDuration (min maxDuration (t - u))

def Seconds (d : Int) : Rat := d / Second

/-! ### The writer -/

structure FrontendDiagnosticWriter where
  seen : Finset String
  seenOrder : List String
  tokens : Rat
  refilled : Int

def newFrontendDiagnosticWriter (now : Int) : FrontendDiagnosticWriter where
  seen := ∅
  seenOrder := []
  tokens := 20
  refilled := now

/-- What becomes of a record in the file: an error may come before anything is written, or
after it. -/
inductive Written where
  | nothing
  | torn
  | record
deriving DecidableEq

namespace FrontendDiagnosticWriter

def allow (w : FrontendDiagnosticWriter) (now : Int) : Bool × FrontendDiagnosticWriter :=
  let w := { w with tokens := min 20 (w.tokens + Seconds (Sub now w.refilled)) }
  let w := { w with refilled := now }
  if w.tokens < 1 then (false, w) else (true, { w with tokens := w.tokens - 1 })

/-- The end of `append`, which forgets the first id of more than 256. -/
def remember (w : FrontendDiagnosticWriter) (id : String) : FrontendDiagnosticWriter :=
  let w := { w with seen := insert id w.seen, seenOrder := w.seenOrder ++ [id] }
  if 256 < w.seenOrder.length then
    { w with seen := w.seen.erase (w.seenOrder.headD ""), seenOrder := w.seenOrder.tail }
  else w

/-- Whether there is no error, and what is written. -/
def append (w : FrontendDiagnosticWriter) (id : String) (written : Written) :
    Bool × Written × FrontendDiagnosticWriter :=
  if id ∈ w.seen then (true, .nothing, w)
  else match written with
    | .record => (true, .record, w.remember id)
    | _ => (false, written, w)

end FrontendDiagnosticWriter

/-! ### Calls of `allow` -/

structure Call where
  now : Int
  allowed : Bool
  writer : FrontendDiagnosticWriter

def calls (w : FrontendDiagnosticWriter) : List Int → List Call
  | [] => []
  | now :: times =>
      let (allowed, w) := w.allow now
      ⟨now, allowed, w⟩ :: calls w times

def after (w : FrontendDiagnosticWriter) (times : List Int) : FrontendDiagnosticWriter :=
  times.foldl (fun w now => (w.allow now).2) w

def Within (start stop : Rat) (now : Int) : Prop := start ≤ Seconds now ∧ Seconds now ≤ stop

instance (start stop : Rat) (now : Int) : Decidable (Within start stop now) :=
  inferInstanceAs (Decidable (_ ∧ _))

/-- How many calls were accepted from one second to another. -/
def accepted (start stop : Rat) (calls : List Call) : Nat :=
  calls.countP fun call => call.allowed ∧ Within start stop call.now

/-! ### Requests -/

structure Request where
  /-- `frontendDiagnosticSameOrigin`. -/
  sameOrigin : Bool
  json : Bool
  /-- The id of the report, if the body is a valid one. -/
  report : Option String

structure Response where
  status : Nat
  error : Option String
  retryAfter : Option String := none

def forbidden : Response := ⟨403, some "same-origin report required", none⟩
def unsupported : Response := ⟨415, some "JSON report required", none⟩
def limited : Response := ⟨429, some "diagnostic rate limit reached", some "60"⟩
def invalid : Response := ⟨400, some "invalid diagnostic report", none⟩
def unsaved : Response := ⟨500, some "failed to save diagnostic", none⟩
def saved : Response := ⟨200, none, none⟩

inductive Phase where
  | called (request : Request) (now : Int)
  | allowed (request : Request) (now : Int)
  | answered (response : Response)

structure Endpoint where
  writer : FrontendDiagnosticWriter
  requests : List Phase
  /-- For each record that was written, at what time its request was let through. -/
  log : List Int

namespace Endpoint

def registerFrontendDiagnosticRoutes (now : Int) : Endpoint where
  writer := newFrontendDiagnosticWriter now
  requests := []
  log := []

inductive Action where
  | receive (request : Request) (now : Int)
  | allow (i : Nat)
  | append (i : Nat) (written : Written)

/-- The next step of `handle`. -/
def step (s : Endpoint) : Action → Option Endpoint
  | .receive request now =>
      let phase : Phase := if !request.sameOrigin then .answered forbidden
        else if !request.json then .answered unsupported
        else .called request now
      some { s with requests := s.requests ++ [phase] }
  | .allow i =>
      match s.requests[i]? with
      | some (.called request now) =>
          let (allowed, writer) := s.writer.allow now
          let phase : Phase := if allowed then .allowed request now else .answered limited
          some { s with writer, requests := s.requests.set i phase }
      | _ => none
  | .append i written =>
      match s.requests[i]? with
      | some (.allowed request now) =>
          match request.report with
          | none => some { s with requests := s.requests.set i (.answered invalid) }
          | some id =>
              let (ok, written, writer) := s.writer.append id written
              let log := if written = .nothing then s.log else s.log ++ [now]
              let response := if ok then saved else unsaved
              some { writer, log, requests := s.requests.set i (.answered response) }
      | _ => none

/-- What the clock shows is the time since the process was started. -/
def Readable (now : Int) : Prop := 0 ≤ now ∧ now ≤ maxDuration

instance (now : Int) : Decidable (Readable now) := inferInstanceAs (Decidable (_ ∧ _))

def Reading : Action → Prop
  | .receive _ now => Readable now
  | _ => True

instance : (a : Action) → Decidable (Reading a)
  | .receive _ now => inferInstanceAs (Decidable (Readable now))
  | .allow _ => .isTrue trivial
  | .append _ _ => .isTrue trivial

end Endpoint

end Memos.Api.Diagnostics

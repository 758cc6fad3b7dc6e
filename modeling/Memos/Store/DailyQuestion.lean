/-
The seed of the daily question.

The seed is one field of the JSON object in the row of the general setting.  Whoever needs
a seed reads the row, and takes the seed that is there or writes the object back with a
new one; the write is made only if the row still is what was read, and otherwise all of it
is tried again, eight times at most.

The JSON library is a parameter.  An object is the map of its fields, and the values of
the fields are whatever the library makes of them.
-/
import Memos.Lib.Runs
import Mathlib.Data.List.AList

namespace Memos.Store.DailyQuestion

/-! ### The library -/

/-- `encoding/json`, and what is relied on: an object that has been written is read back
with the same fields, and so is a string. -/
structure Json where
  Value : Type
  /-- Into a map, which `null` leaves `nil`. -/
  unmarshal : String → Except String (Option (AList fun _ : String => Value))
  marshal : (AList fun _ : String => Value) → Except String String
  unmarshalString : Value → Except String String
  marshalString : String → Value
  unmarshal_marshal : ∀ values text, marshal values = .ok text →
    ∃ values', unmarshal text = .ok (some values') ∧ ∀ key, values'.lookup key = values.lookup key
  unmarshalString_marshalString : ∀ text, unmarshalString (marshalString text) = .ok text

def EncodeToString (data : List UInt8) : String :=
  String.ofList (data.flatMap fun b => [Nat.digitChar (b.toNat / 16), Nat.digitChar (b.toNat % 16)])

abbrev Random := Except String (Vector UInt8 8)

def NewSeed (random : Random) : Except String String :=
  match random with
  | .error message => .error ("generate daily question seed: " ++ message)
  | .ok data => .ok (EncodeToString data.toList)

/-! ### The object -/

section Object

variable (json : Json)

abbrev Json.Fields := AList fun _ : String => json.Value

def seedKeys : List String := ["dailyQuestionSeed", "daily_question_seed"]

def seedAmong (values : json.Fields) : List String → Except String String
  | [] => .ok ""
  | key :: keys =>
      match values.lookup key with
      | none => seedAmong values keys
      | some value =>
          match json.unmarshalString value with
          | .error message => .error ("decode daily question seed: " ++ message)
          | .ok seed => if seed ≠ "" then .ok seed else seedAmong values keys

def dailyQuestionSeedJSON (raw : String) : Except String (json.Fields × String) :=
  match json.unmarshal raw with
  | .error message => .error ("decode GENERAL for daily question seed: " ++ message)
  | .ok none => .error "GENERAL must be a JSON object"
  | .ok (some values) => (seedAmong json values seedKeys).map fun seed => (values, seed)

def withSeed (values : json.Fields) (seed : String) : json.Fields :=
  (values.erase "daily_question_seed").insert "dailyQuestionSeed" (json.marshalString seed)

end Object

/-! ### Calls on their way -/

inductive Call where
  /-- About to read the row, with so many more tries after this one. -/
  | reading (rounds : Nat)
  /-- About to write the value if the row still is what has been seen of it. -/
  | writing (rounds : Nat) (seen : Option String) (value seed : String)
  | returned (seed : String)
  | failed (message : String)
deriving DecidableEq

structure Server where
  /-- The value of the row named `GENERAL`. -/
  row : Option String
  calls : List Call
deriving DecidableEq

def begin (row : Option String) : Server := ⟨row, []⟩

def Server.setCall (s : Server) (i : Nat) (call : Call) : Server :=
  { s with calls := s.calls.set i call }

inductive Action where
  | call
  | run (i : Nat) (random : Random)
  | fail (i : Nat) (applied : Bool) (message : String)
  /-- Another writer of the setting, with what it has seen of the row. -/
  | other (seen : Option String) (value : String)

def look (json : Json) (row : Option String) (rounds : Nat) (random : Random) : Call :=
  match dailyQuestionSeedJSON json (row.getD "\x7b\x7d") with
  | .error message => .failed message
  | .ok (values, seed) =>
      if seed ≠ "" then .returned seed
      else
        match NewSeed random with
        | .error message => .failed message
        | .ok seed =>
            match json.marshal (withSeed json values seed) with
            | .error message => .failed message
            | .ok value => .writing rounds row value seed

def retry : Nat → Call
  | 0 => .failed "GENERAL changed repeatedly while initializing daily question seed"
  | rounds + 1 => .reading rounds

/-- The conditional insertion or update: it has an effect only if the row is as it was
seen. -/
def Server.compareAndSet (s : Server) (seen : Option String) (value : String) : Server :=
  if s.row = seen then { s with row := some value } else s

def runCall (json : Json) (random : Random) (s : Server) (i : Nat) : Call → Option Server
  | .reading rounds => some (s.setCall i (look json s.row rounds random))
  | .writing rounds seen value seed =>
      some ((s.compareAndSet seen value).setCall i
        (if s.row = seen then .returned seed else retry rounds))
  | .returned _ | .failed _ => none

def failCall (s : Server) (i : Nat) (applied : Bool) (message : String) : Call → Option Server
  | .reading _ => some (s.setCall i (.failed message))
  | .writing _ seen value _ =>
      some ((if applied then s.compareAndSet seen value else s).setCall i (.failed message))
  | .returned _ | .failed _ => none

def step (json : Json) (s : Server) : Action → Option Server
  | .call => some { s with calls := s.calls ++ [.reading 7] }
  | .run i random => s.calls[i]?.bind (runCall json random s i)
  | .fail i applied message => s.calls[i]?.bind (failCall s i applied message)
  | .other seen value => some (s.compareAndSet seen value)

end Memos.Store.DailyQuestion

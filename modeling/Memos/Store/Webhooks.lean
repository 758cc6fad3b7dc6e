/-
The webhooks of a user.

All of them are one row of the settings table.  Adding, removing and updating a webhook
read the list, from the cache if it is there, make the new list and write it to the row
and then to the cache.  No mutex keeps two of them apart.

The cache hands out the object it holds, not a copy of it.  An update writes the new
webhook into the list it was handed, so whoever reads the cache sees it before the row
is written, and whether or not the row is written.  What is on the way is therefore
modelled with the objects: a list in memory has an address, and cache and calls know
addresses.

Nothing ever changes a webhook itself, only the place of a list it stands in.
-/
import Memos.Lib.Runs

namespace Memos.Store.Webhooks

structure Webhook where
  id : String
  title : String
  url : String
  signingSecret : String
deriving DecidableEq

/-- The calls of the store that touch the row or its entry, for one user. -/
inductive Operation where
  | getUserWebhooks
  /-- A listing of all settings of the user, which asks the table and not the cache. -/
  | listUserSettings
  | addUserWebhook (webhook : Webhook)
  | removeUserWebhook (webhookID : String)
  | updateUserWebhook (webhook : Webhook)
deriving DecidableEq

/-! ### The new list -/

/-- A webhook of the same id is replaced, wherever it stands; without one the webhook goes
to the end. -/
def addWebhook (webhook : Webhook) (existing : List Webhook) : List Webhook :=
  let updated := existing.map fun w => if w.id = webhook.id then webhook else w
  if existing.any fun w => w.id = webhook.id then updated else updated ++ [webhook]

def removeWebhook (webhookID : String) (old : List Webhook) : List Webhook :=
  old.filter fun w => webhookID ≠ w.id

/-- Only the first webhook of the id is replaced, and a missing one is not added. -/
def updateWebhook (webhook : Webhook) : List Webhook → List Webhook
  | [] => []
  | existing :: rest =>
      if existing.id = webhook.id then webhook :: rest else existing :: updateWebhook webhook rest

def Operation.apply (list : List Webhook) : Operation → List Webhook
  | .getUserWebhooks | .listUserSettings => list
  | .addUserWebhook webhook => addWebhook webhook list
  | .removeUserWebhook webhookID => removeWebhook webhookID list
  | .updateUserWebhook webhook => updateWebhook webhook list

/-! ### Calls on their way -/

/-- Where a call is.  What a call has read is kept with it for the statements about it; the
code has only the object. -/
inductive Call where
  | called (op : Operation)
  | missed (op : Operation)
  /-- Back from the query with an object that is still to be put into the cache, once by
  the listing and once more by `GetUserSetting`. -/
  | filling (op : Operation) (ref fills : Nat)
  | got (op : Operation) (ref : Nat)
  /-- The new list is made, and not yet marshalled. -/
  | made (op : Operation) (read : List Webhook) (ref : Nat)
  | upserting (op : Operation) (read : List Webhook) (ref : Nat) (list : List Webhook)
  | caching (op : Operation) (list : List Webhook)
  | answered (op : Operation) (list : List Webhook)
  | acknowledged (op : Operation)
  | failed (op : Operation)

structure State where
  row : Option (List Webhook)
  /-- The lists in memory, by address. -/
  objects : List (List Webhook)
  cache : Option Nat
  calls : List Call

namespace State

def setCall (s : State) (i : Nat) (call : Call) : State :=
  { s with calls := s.calls.set i call }

/-- A new list in memory; its address is the number of lists there were. -/
def new (s : State) (list : List Webhook) : State :=
  { s with objects := s.objects ++ [list] }

def object (s : State) (ref : Nat) : List Webhook := s.objects[ref]?.getD []

def stored (s : State) : List Webhook := s.row.getD []

def visible (s : State) : List Webhook :=
  match s.cache with
  | some ref => s.object ref
  | none => s.stored

end State

inductive Action where
  | call (op : Operation)
  | run (i : Nat)
  /-- The call cannot marshal the list, or the statement it is about to make fails. -/
  | fail (i : Nat)
  | evict

/-- How often the object of a row is put into the cache. -/
def Operation.fills : Operation → Nat
  | .listUserSettings => 1
  | _ => 2

/-- The new list.  An update changes the list it has, the others make one of their own. -/
def make (s : State) (i ref : Nat) : Operation → State
  | .getUserWebhooks => s.setCall i (.answered .getUserWebhooks (s.object ref))
  | .listUserSettings => s.setCall i (.answered .listUserSettings (s.object ref))
  | .updateUserWebhook webhook =>
      { s.setCall i (.made (.updateUserWebhook webhook) (s.object ref) ref) with
        objects := s.objects.set ref (updateWebhook webhook (s.object ref)) }
  | op => (s.setCall i (.made op (s.object ref) s.objects.length)).new (op.apply (s.object ref))

def runCall (s : State) (i : Nat) : Call → Option State
  | .called .listUserSettings => some (s.setCall i (.missed .listUserSettings))
  | .called op =>
      match s.cache with
      | some ref => some (s.setCall i (.got op ref))
      | none => some (s.setCall i (.missed op))
  | .missed op =>
      match s.row with
      | some list => some ((s.setCall i (.filling op s.objects.length op.fills)).new list)
      | none => some ((s.setCall i (.got op s.objects.length)).new [])
  | .filling op ref (fills + 1) => some { s.setCall i (.filling op ref fills) with cache := some ref }
  | .filling op ref 0 => some (s.setCall i (.got op ref))
  | .got op ref => some (make s i ref op)
  | .made op read ref => some (s.setCall i (.upserting op read ref (s.object ref)))
  | .upserting op _ _ list => some { s.setCall i (.caching op list) with row := some list }
  | .caching op list =>
      some { (s.setCall i (.acknowledged op)).new list with cache := some s.objects.length }
  | .answered _ _ | .acknowledged _ | .failed _ => none

def failCall (s : State) (i : Nat) : Call → Option State
  | .missed op | .made op _ _ | .upserting op _ _ _ => some (s.setCall i (.failed op))
  | _ => none

def step (s : State) : Action → Option State
  | .call op => some { s with calls := s.calls ++ [.called op] }
  | .run i => s.calls[i]?.bind (runCall s i)
  | .fail i => s.calls[i]?.bind (failCall s i)
  | .evict => some { s with cache := none }

end Memos.Store.Webhooks

/-
The hub that tells connected clients what has changed.

A client has two channels, one for the frames and one that only says that it is over.  The
hub keeps the clients that are connected; it adds and removes them under the write lock,
and sends under the read lock, so that several calls may be sending at once.  A frame for a
client whose channel is full is dropped, and the client is removed when the call is through
with the others.

To send on a closed channel, or to close one twice, is a panic.  A message carries the
number of the call it comes from, and a call records who was there and whom it has dropped;
nothing in the hub depends on that.
-/
import Memos.Store.Tables
import Memos.Lib.Runs

namespace Memos.Api.SSE

open Store

def sseDataPrefix : String := "data: "
def sseClientEventBufferSize : Nat := 32
def memoChangedSSEFrame : String := "data: \x7b\"type\":\"memo.changed\"\x7d\n\n"
def spaceChangedSSEFrame : String := "data: \x7b\"type\":\"space.changed\"\x7d\n\n"

/-! ### Events -/

inductive SSEEventType where
  | MemoCreated
  | MemoUpdated
  | MemoDeleted
  | MemoCommentCreated
  | ReactionUpserted
  | ReactionDeleted
deriving DecidableEq

structure SSEEvent where
  type : SSEEventType
  name : String
  parent : String := ""
  /-- Nothing stands for the empty text. -/
  visibility : Option Visibility
  creatorID : Int
deriving DecidableEq

/-- `json.Marshal`, on the type, the name and the parent. -/
abbrev Marshal := SSEEventType → String → String → Option String

def SSEEvent.Frame (marshal : Marshal) (e : SSEEvent) : String :=
  match marshal e.type e.name e.parent with
  | none => ""
  | some data => sseDataPrefix ++ data ++ "\n\n"

def SSEEvent.hasKnownVisibility (e : SSEEvent) : Bool :=
  match e.visibility with
  | some .Private | some .Public | some .Protected | none => true
  | _ => false

structure Identity where
  userID : Int := 0
  role : Role := .User
deriving DecidableEq

def Identity.canReceive (c : Identity) (event : SSEEvent) : Bool :=
  match event.visibility with
  | some .Private => c.userID = event.creatorID || c.role = .Admin
  | some .Public | some .Protected | none => true
  | _ => false

inductive Publish where
  | Broadcast (event : Option SSEEvent)
  | publishMemoChanged
  | publishSpaceChanged
deriving DecidableEq

structure Announcement where
  frame : String
  allow : Identity → Bool

def Publish.announcement (marshal : Marshal) : Publish → Option Announcement
  | .Broadcast none => none
  | .Broadcast (some event) =>
      if event.visibility = some .SpaceAudience then
        some ⟨memoChangedSSEFrame, fun client => client.userID ≠ 0⟩
      else if event.hasKnownVisibility = false then none
      else if event.Frame marshal = "" then none
      else some ⟨event.Frame marshal, fun client => client.userID ≠ 0 && client.canReceive event⟩
  | .publishMemoChanged => some ⟨memoChangedSSEFrame, fun client => client.userID = 0⟩
  | .publishSpaceChanged => some ⟨spaceChangedSSEFrame, fun _ => true⟩

/-! ### The hub -/

structure Message where
  call : Nat
  frame : String
deriving DecidableEq

structure SSEClient where
  identity : Identity := {}
  events : List Message := []
  eventsClosed : Bool := false
  doneClosed : Bool := false
  received : List Message := []
  unsubscribed : Bool := false
deriving DecidableEq

inductive Phase where
  | called
  /-- Holds the read lock, with these clients still to be visited. -/
  | sending (remaining : List Nat)
  /-- Has let go of the lock, with these clients still to be removed. -/
  | removing (slow : List Nat)
  | finished
deriving DecidableEq

structure Call where
  publish : Publish := .publishMemoChanged
  /-- The calls that had ended when this one was made. -/
  earlier : List Nat := []
  /-- The clients that were connected when this one was made. -/
  subscribers : List Nat := []
  /-- The clients that were connected when it took the lock. -/
  members : List Nat := []
  dropped : List Nat := []
  phase : Phase := .called
deriving DecidableEq

structure SSEHub where
  clients : List Nat
  closed : Bool
  /-- How many clients there have been, and which. -/
  attached : Nat
  client : Nat → SSEClient
  /-- How many calls have been made, and which. -/
  made : Nat
  call : Nat → Call
  panicked : Bool

def NewSSEHub : SSEHub where
  clients := []
  closed := false
  attached := 0
  client _ := {}
  made := 0
  call _ := {}
  panicked := false

namespace SSEHub

def setClient (h : SSEHub) (c : Nat) (client : SSEClient) : SSEHub :=
  { h with client := Function.update h.client c client }

def setCall (h : SSEHub) (n : Nat) (call : Call) : SSEHub :=
  { h with call := Function.update h.call n call }

def reading (h : SSEHub) : Bool :=
  (List.range h.made).any fun n =>
    match (h.call n).phase with
    | .sending _ => true
    | _ => false

/-- A client is removed from the map and its channels are closed, if it is there. -/
def disconnect (h : SSEHub) (c : Nat) : SSEHub :=
  if c ∈ h.clients then
    { h.setClient c { h.client c with eventsClosed := true, doneClosed := true } with
      clients := h.clients.erase c
      panicked := h.panicked || (h.client c).eventsClosed || (h.client c).doneClosed }
  else h

def attachClient (h : SSEHub) (identity : Identity) : SSEHub :=
  { h.setClient h.attached { identity, eventsClosed := h.closed, doneClosed := h.closed } with
    attached := h.attached + 1
    clients := if h.closed then h.clients else h.clients ++ [h.attached] }

def Unsubscribe (h : SSEHub) (c : Nat) : SSEHub :=
  (h.setClient c { h.client c with unsubscribed := true }).disconnect c

def Close (h : SSEHub) : SSEHub :=
  if h.closed then h else h.clients.foldl disconnect { h with closed := true }

def visit (h : SSEHub) (n c : Nat) (remaining : List Nat) (announcement : Announcement) : SSEHub :=
  let call := { h.call n with phase := .sending (remaining.erase c) }
  if announcement.allow (h.client c).identity = false then h.setCall n call
  else if (h.client c).eventsClosed then { h with panicked := true }
  else if (h.client c).events.length < sseClientEventBufferSize then
    (h.setClient c
      { h.client c with events := (h.client c).events ++ [⟨n, announcement.frame⟩] }).setCall n call
  else h.setCall n { call with dropped := call.dropped ++ [c] }

/-- The next step of a call; which client it visits next is not determined. -/
def runCall (marshal : Marshal) (h : SSEHub) (n c : Nat) : Option SSEHub :=
  let call := h.call n
  match call.phase with
  | .called =>
      match call.publish.announcement marshal with
      | none => some (h.setCall n { call with phase := .finished })
      | some _ => some (h.setCall n { call with members := h.clients, phase := .sending h.clients })
  | .sending [] => some (h.setCall n { call with phase := .removing call.dropped })
  | .sending remaining =>
      if c ∈ remaining then (call.publish.announcement marshal).map (h.visit n c remaining) else none
  | .removing [] => some (h.setCall n { call with phase := .finished })
  | .removing (c :: slow) =>
      if h.reading then none
      else some ((h.disconnect c).setCall n { call with phase := .removing slow })
  | .finished => none

def ended (h : SSEHub) : List Nat :=
  (List.range h.made).filter fun n => decide ((h.call n).phase = .finished)

inductive Action where
  | subscribe (identity : Identity)
  | unsubscribe (c : Nat)
  | close
  | publish (publish : Publish)
  | run (n c : Nat)
  | receive (c : Nat)

/-- The write lock is free when nobody reads. -/
def ifUnlocked (h next : SSEHub) : Option SSEHub := if h.reading then none else some next

def step (marshal : Marshal) (h : SSEHub) : Action → Option SSEHub
  | .subscribe identity => h.ifUnlocked (h.attachClient identity)
  | .unsubscribe c => if c < h.attached then h.ifUnlocked (h.Unsubscribe c) else none
  | .close => h.ifUnlocked h.Close
  | .publish publish =>
      some { h.setCall h.made { publish, earlier := h.ended, subscribers := h.clients } with
        made := h.made + 1 }
  | .run n c => if n < h.made then h.runCall marshal n c else none
  | .receive c =>
      match (h.client c).events with
      | [] => none
      | message :: events =>
          some (h.setClient c { h.client c with
            events := events
            received := (h.client c).received ++ [message] })

end SSEHub

end Memos.Api.SSE

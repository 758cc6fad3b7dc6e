/-
Publishing scheduled drafts, beside the requests that edit them.

A draft is published twice over.  Its time comes, and from then on the read checks treat
it as published though it is still marked as a draft; and the publisher, which passes
from time to time, takes the mark off.  Both read the clock, and so does a request that
edits the memo in between, twice: when it reads the mask and when it settles the update.

Here the writers of payloads have one clock, which only goes forward.  A request and a
pass of the publisher read at one time and write at a later one, and anything may happen
in between; either may stop at any point.
-/
import Memos.Api.PayloadWriters

namespace Memos.Api.Publication

open Store Access

structure Server where
  system : System
  clock : Int

inductive Event where
  | tick (seconds : Nat)
  /-- The request reads the memo now, and looks at the clock again so many seconds later. -/
  | updateMemo (authUserID : Int) (revisionForce : Bool) (request : UpdateMemoRequest) (later : Nat)
  /-- `PublishScheduledMemos` scans for memos whose time has come. -/
  | publishScheduledMemos
  | write (i : Nat)
  | stop (i : Nat)

def Server.act (service : APIV1Service) (s : Server) (action : WriterAction) : Option Server :=
  (service.stepWriter s.system action).map fun system => { s with system }

def step (service : APIV1Service) (s : Server) : Event → Option Server
  | .tick seconds => some { s with clock := s.clock + seconds }
  | .updateMemo authUserID revisionForce request later =>
      s.act service (.update s.clock (s.clock + later) authUserID revisionForce request)
  | .publishScheduledMemos => s.act service (.scan s.clock)
  | .write i => s.act service (.write i s.clock)
  | .stop i => s.act service (.stop i)

end Memos.Api.Publication

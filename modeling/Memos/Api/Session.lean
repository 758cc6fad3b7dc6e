/-
Sessions and their refresh tokens.

A sign-in stores a refresh token for the user.  Whoever presents a token that is stored
gets another one for it, and the old one is removed.  The exchange takes three steps: the
token is looked up, its successor is added, and then the token is removed.  Each of them
is one operation of the store, under a mutex of its own, and anything may happen between
two of them.

A token is a signed text.  What is presented here is the outcome of checking it; the ids
of tokens come from a generator that is called for the first, the second time and so on.
-/
import Memos.Access.Memo
import Memos.Lib.Runs

namespace Memos.Api.Session

open Store

/-! ### Tokens -/

structure RefreshToken where
  tokenID : String
  expiresAt : Option Int
  createdAt : Int
  clientInfo : String

/-- What a signed token says: the subject, if it is a user id, and the id of the token. -/
structure RefreshTokenClaims where
  userID : Except String Int
  tokenID : String

def refreshTokenDuration : Int := 30 * 24 * 60 * 60

structure State where
  users : Keyed.Table UserRow.schema
  tokens : Int → List RefreshToken

def getUserRefreshTokenByID (s : State) (userID : Int) (tokenID : String) : Option RefreshToken :=
  (s.tokens userID).find? fun token => token.tokenID = tokenID

def State.setTokens (s : State) (userID : Int) (tokens : List RefreshToken) : State :=
  { s with tokens := fun id => if id = userID then tokens else s.tokens id }

def addUserRefreshToken (s : State) (userID : Int) (token : RefreshToken) : State :=
  s.setTokens userID (s.tokens userID ++ [token])

def removeUserRefreshToken (s : State) (userID : Int) (tokenID : String) : State :=
  s.setTokens userID ((s.tokens userID).filter fun token => token.tokenID ≠ tokenID)

/-- `AuthenticateByRefreshToken`, of a token that was checked. -/
def authenticateByRefreshToken (s : State) (now : Int) (presented : Except String RefreshTokenClaims) :
    Except String (UserRow × String) :=
  match presented with
  | .error e => .error ("invalid refresh token: " ++ e)
  | .ok claims =>
      match claims.userID with
      | .error e => .error ("invalid user ID in token: " ++ e)
      | .ok userID =>
          match getUserRefreshTokenByID s userID claims.tokenID with
          | none => .error "refresh token revoked"
          | some token =>
              if token.expiresAt.any fun expiresAt => decide (expiresAt < now) then
                .error "refresh token expired"
              else
                match s.users.find? userID with
                | none => .error "user not found"
                | some user =>
                    if user.rowStatus = .Archived then .error "user is archived"
                    else .ok (user, claims.tokenID)

/-! ### Calls on their way -/

inductive Exchange where
  | presented (token : Except String RefreshTokenClaims)
  | validated (user : UserRow) (oldTokenID newTokenID : String)
  | added (user : UserRow) (oldTokenID newTokenID : String)
  | rotated (user : UserRow) (oldTokenID newTokenID : String)
  | answered (user : UserRow) (oldTokenID newTokenID : String) (succeeded : Bool)
  | refused

structure Server where
  state : State
  exchanges : List Exchange
  calls : Nat

def Server.setExchange (s : Server) (i : Nat) (exchange : Exchange) : Server :=
  { s with exchanges := s.exchanges.set i exchange }

inductive Action where
  | present (token : Except String RefreshTokenClaims)
  | validate (i : Nat) (now : Int)
  | add (i : Nat) (now : Int) (clientInfo : String)
  | remove (i : Nat)
  | answer (i : Nat) (succeeded : Bool)
  | fail (i : Nat)
  | signIn (userID : Int) (now : Int) (clientInfo : String)
  | revoke (userID : Int) (tokenID : String)
  | deleteTokens (userID : Int)
  | changeUsers (users : Keyed.Table UserRow.schema)
  /-- An id is generated for something else, or for a token that cannot be stored. -/
  | generate

def newToken (tokenID : String) (now : Int) (clientInfo : String) : RefreshToken :=
  { tokenID, expiresAt := some (now + refreshTokenDuration), createdAt := now, clientInfo }

def step (genUUID : Nat → String) (s : Server) : Action → Option Server
  | .present token => some { s with exchanges := s.exchanges ++ [.presented token] }
  | .validate i now =>
      match s.exchanges[i]? with
      | some (.presented token) =>
          match authenticateByRefreshToken s.state now token with
          | .error _ => some (s.setExchange i .refused)
          | .ok (user, oldTokenID) =>
              some { s.setExchange i (.validated user oldTokenID (genUUID s.calls)) with
                calls := s.calls + 1 }
      | _ => none
  | .add i now clientInfo =>
      match s.exchanges[i]? with
      | some (.validated user oldTokenID newTokenID) =>
          some { s.setExchange i (.added user oldTokenID newTokenID) with
            state := addUserRefreshToken s.state user.id (newToken newTokenID now clientInfo) }
      | _ => none
  | .remove i =>
      match s.exchanges[i]? with
      | some (.added user oldTokenID newTokenID) =>
          some { s.setExchange i (.rotated user oldTokenID newTokenID) with
            state := removeUserRefreshToken s.state user.id oldTokenID }
      | _ => none
  | .answer i succeeded =>
      match s.exchanges[i]? with
      | some (.rotated user oldTokenID newTokenID) =>
          some (s.setExchange i (.answered user oldTokenID newTokenID succeeded))
      | _ => none
  | .fail i =>
      match s.exchanges[i]? with
      | some (.presented _) | some (.validated _ _ _) => some (s.setExchange i .refused)
      -- The removal is logged as failed, and the call goes on.
      | some (.added user oldTokenID newTokenID) =>
          some (s.setExchange i (.rotated user oldTokenID newTokenID))
      | _ => none
  | .signIn userID now clientInfo =>
      some { s with
        state := addUserRefreshToken s.state userID (newToken (genUUID s.calls) now clientInfo)
        calls := s.calls + 1 }
  | .revoke userID tokenID =>
      some { s with state := removeUserRefreshToken s.state userID tokenID }
  | .deleteTokens userID => some { s with state := s.state.setTokens userID [] }
  | .changeUsers users => some { s with state := { s.state with users } }
  | .generate => some { s with calls := s.calls + 1 }

def Server.idle (users : Keyed.Table UserRow.schema) : Server where
  state := { users, tokens := fun _ => [] }
  exchanges := []
  calls := 0

end Memos.Api.Session

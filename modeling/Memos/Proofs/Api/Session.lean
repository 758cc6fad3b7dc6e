/-
How often a refresh token can be used.

The lookup of a token and its removal are two steps.  Two exchanges that have both looked
the token up both go on, and each of them answers with a successor of its own.  And if
the removal fails, the token stays valid, which the code accepts: it will expire.

Apart from that a token is good for one answer.  Ids are never used twice, so a token
that was removed is not added again, and while one exchange is on its way with a token no
other begins.
-/
import Memos.Api.Session

namespace Memos.Api.Session

open Store Runs

/-! ### What a call has to do with a token -/

/-- The token a call has found valid, and whose it is. -/
def Exchange.claim : Exchange → Option (Int × String)
  | .validated user oldTokenID _ | .added user oldTokenID _ | .rotated user oldTokenID _
  | .answered user oldTokenID _ _ => some (user.id, oldTokenID)
  | .presented _ | .refused => none

def Exchange.pending : Exchange → Option String
  | .validated _ _ newTokenID => some newTokenID
  | _ => none

def Exchange.removed : Exchange → Bool
  | .rotated _ _ _ | .answered _ _ _ _ => true
  | _ => false

/-- The call is between finding the token valid and removing it. -/
def Exchange.busyWith (userID : Int) (tokenID : String) : Exchange → Bool
  | .validated user oldTokenID _ | .added user oldTokenID _ =>
      decide (user.id = userID) && decide (oldTokenID = tokenID)
  | _ => false

theorem busyWith_of_claim {exchange : Exchange} {userID : Int} {tokenID : String}
    (claims : exchange.claim = some (userID, tokenID)) (busy : ¬ exchange.removed = true) :
    exchange.busyWith userID tokenID = true := by
  cases exchange with
  | presented token => cases claims
  | refused => cases claims
  | rotated _ _ _ => exact absurd rfl busy
  | answered _ _ _ _ => exact absurd rfl busy
  | validated user old new | added user old new =>
      injection claims with claims
      injection claims with sameUser sameToken
      show (decide _ && decide _) = true
      rw [decide_eq_true sameUser, decide_eq_true sameToken]
      rfl

/-- No call finds a token valid that another call is busy with, and no removal fails. -/
def exclusive (s : Server) : Action → Bool
  | .validate i _ =>
      match s.exchanges[i]? with
      | some (.presented (.ok ⟨.ok userID, tokenID⟩)) =>
          !s.exchanges.any (Exchange.busyWith userID tokenID)
      | _ => true
  | .fail i =>
      match s.exchanges[i]? with
      | some (.added _ _ _) => false
      | _ => true
  | _ => true

def Exclusive (s : Server) (a : Action) : Prop := exclusive s a = true

instance (s : Server) (a : Action) : Decidable (Exclusive s a) :=
  inferInstanceAs (Decidable (exclusive s a = true))

def Absent (state : State) (userID : Int) (tokenID : String) : Prop :=
  ∀ token ∈ state.tokens userID, token.tokenID ≠ tokenID

section Invariant

variable {genUUID : Nat → String} {s s' : Server}

/-- The generator has given the id out. -/
def Issued (genUUID : Nat → String) (s : Server) (tokenID : String) : Prop :=
  ∃ n < s.calls, tokenID = genUUID n

/-- The next id is none of those. -/
theorem Issued.ne_next (distinct : Function.Injective genUUID) {tokenID : String}
    (issued : Issued genUUID s tokenID) : tokenID ≠ genUUID s.calls := by
  obtain ⟨n, earlier, rfl⟩ := issued
  intro same
  exact absurd (distinct same) (Nat.ne_of_lt earlier)

structure Inv (genUUID : Nat → String) (s : Server) : Prop where
  stored : ∀ userID, ∀ token ∈ s.state.tokens userID, Issued genUUID s token.tokenID
  claimed : ∀ (i : Nat) exchange userID tokenID, s.exchanges[i]? = some exchange →
    exchange.claim = some (userID, tokenID) → Issued genUUID s tokenID
  pending : ∀ (i : Nat) exchange newTokenID, s.exchanges[i]? = some exchange →
    exchange.pending = some newTokenID →
      Issued genUUID s newTokenID ∧ (∀ userID, Absent s.state userID newTokenID) ∧
      (∀ (j : Nat) other userID tokenID, s.exchanges[j]? = some other →
        other.claim = some (userID, tokenID) → tokenID ≠ newTokenID) ∧
      ∀ (j : Nat) other, s.exchanges[j]? = some other → other.pending = some newTokenID → j = i
  gone : ∀ (i : Nat) exchange userID tokenID, s.exchanges[i]? = some exchange →
    exchange.claim = some (userID, tokenID) → exchange.removed = true →
      Absent s.state userID tokenID
  alone : ∀ (i j : Nat) exchange other claim, s.exchanges[i]? = some exchange →
    s.exchanges[j]? = some other → exchange.claim = some claim → other.claim = some claim → i = j

/-- A call is where it was, has gone on with its token, or has nothing to do with any. -/
def Follows (s s' : Server) (j : Nat) (exchange' : Exchange) : Prop :=
  (exchange'.claim = none ∧ exchange'.pending = none) ∨
    ∃ exchange, s.exchanges[j]? = some exchange ∧ exchange'.claim = exchange.claim ∧
      (exchange'.pending = none ∨ exchange'.pending = exchange.pending) ∧
      (exchange'.removed = true → exchange.removed = true ∨
        ∀ userID tokenID, exchange.claim = some (userID, tokenID) → Absent s'.state userID tokenID)

theorem Follows.refl {j : Nat} {exchange : Exchange} (here : s.exchanges[j]? = some exchange) :
    Follows s s' j exchange :=
  .inr ⟨exchange, here, rfl, .inr rfl, .inl⟩

theorem Inv.quiet (inv : Inv genUUID s)
    (tokens : ∀ userID, ∀ token ∈ s'.state.tokens userID, token ∈ s.state.tokens userID)
    (calls : s.calls ≤ s'.calls)
    (exchanges : ∀ (j : Nat) exchange', s'.exchanges[j]? = some exchange' → Follows s s' j exchange') :
    Inv genUUID s' := by
  have issued : ∀ tokenID, Issued genUUID s tokenID → Issued genUUID s' tokenID := by
    rintro tokenID ⟨n, earlier, same⟩
    exact ⟨n, Nat.lt_of_lt_of_le earlier calls, same⟩
  have origin : ∀ (j : Nat) exchange' claim, s'.exchanges[j]? = some exchange' →
      exchange'.claim = some claim →
        ∃ exchange, s.exchanges[j]? = some exchange ∧ exchange.claim = some claim := by
    intro j exchange' claim here claims
    rcases exchanges j exchange' here with ⟨none, -⟩ | ⟨exchange, here', same, -⟩
    · rw [none] at claims
      cases claims
    · exact ⟨exchange, here', same.symm.trans claims⟩
  have origin' : ∀ (j : Nat) exchange' newTokenID, s'.exchanges[j]? = some exchange' →
      exchange'.pending = some newTokenID →
        ∃ exchange, s.exchanges[j]? = some exchange ∧ exchange.pending = some newTokenID := by
    intro j exchange' newTokenID here waits
    rcases exchanges j exchange' here with ⟨-, none⟩ | ⟨exchange, here', -, none | same, -⟩
    · rw [none] at waits
      cases waits
    · rw [none] at waits
      cases waits
    · exact ⟨exchange, here', same.symm.trans waits⟩
  constructor
  · intro userID token stored
    exact issued _ (inv.stored userID token (tokens userID token stored))
  · intro i exchange' userID tokenID here claims
    obtain ⟨exchange, here', claims'⟩ := origin i exchange' _ here claims
    exact issued _ (inv.claimed i exchange userID tokenID here' claims')
  · intro i exchange' newTokenID here waits
    obtain ⟨exchange, here', waits'⟩ := origin' i exchange' _ here waits
    obtain ⟨known, absent, unclaimed, unique⟩ := inv.pending i exchange newTokenID here' waits'
    refine ⟨issued _ known, ?_, ?_, ?_⟩
    · exact fun userID token stored => absent userID token (tokens userID token stored)
    · intro j other userID tokenID there claims
      obtain ⟨other', there', claims'⟩ := origin j other _ there claims
      exact unclaimed j other' userID tokenID there' claims'
    · intro j other there waits
      obtain ⟨other', there', waits'⟩ := origin' j other _ there waits
      exact unique j other' there' waits'
  · intro i exchange' userID tokenID here claims removed
    rcases exchanges i exchange' here with ⟨none, -⟩ | ⟨exchange, here', same, -, past⟩
    · rw [none] at claims
      cases claims
    · have claims' := same.symm.trans claims
      rcases past removed with before | now
      · exact fun token stored => inv.gone i exchange userID tokenID here' claims' before token
          (tokens userID token stored)
      · exact now userID tokenID claims'
  · intro i j exchange' other' claim here there claims claims'
    obtain ⟨exchange, here', claims⟩ := origin i exchange' _ here claims
    obtain ⟨other, there', claims'⟩ := origin j other' _ there claims'
    exact inv.alone i j exchange other claim here' there' claims claims'

theorem Inv.store (inv : Inv genUUID s) {userID : Int} {token : RefreshToken}
    (issued : Issued genUUID s token.tokenID)
    (unclaimed : ∀ (j : Nat) other userID tokenID, s.exchanges[j]? = some other →
      other.claim = some (userID, tokenID) → tokenID ≠ token.tokenID)
    (free : ∀ (j : Nat) other, s.exchanges[j]? = some other → other.pending ≠ some token.tokenID) :
    Inv genUUID { s with state := addUserRefreshToken s.state userID token } := by
  have added : ∀ user, ∀ token' ∈ (addUserRefreshToken s.state userID token).tokens user,
      token' ∈ s.state.tokens user ∨ token' = token := by
    intro user token' stored
    have stored : token' ∈ if user = userID then s.state.tokens userID ++ [token]
      else s.state.tokens user := stored
    split at stored
    · rename_i same
      rw [List.mem_append, List.mem_singleton] at stored
      rw [same]
      exact stored
    · exact .inl stored
  constructor
  · intro user token' stored
    rcases added user token' stored with stored | rfl
    · exact inv.stored user token' stored
    · exact issued
  · exact inv.claimed
  · intro i exchange newTokenID here waits
    obtain ⟨known, absent, rest⟩ := inv.pending i exchange newTokenID here waits
    refine ⟨known, fun user token' stored => ?_, rest⟩
    rcases added user token' stored with stored | rfl
    · exact absent user token' stored
    · intro same
      rw [← same] at waits
      exact free i exchange here waits
  · intro i exchange user tokenID here claims removed token' stored
    rcases added user token' stored with stored | rfl
    · exact inv.gone i exchange user tokenID here claims removed token' stored
    · exact (unclaimed i exchange user tokenID here claims).symm
  · exact inv.alone

theorem removeUserRefreshToken_spec (state : State) (userID : Int) (tokenID : String) :
    ∀ user, ∀ token ∈ (removeUserRefreshToken state userID tokenID).tokens user,
      token ∈ state.tokens user ∧ (user = userID → token.tokenID ≠ tokenID) := by
  intro user token stored
  have stored : token ∈ if user = userID then
      (state.tokens userID).filter fun token => token.tokenID ≠ tokenID
    else state.tokens user := stored
  split at stored
  · rename_i same
    rw [List.mem_filter, decide_eq_true_eq] at stored
    rw [same]
    exact ⟨stored.1, fun _ => stored.2⟩
  · rename_i apart
    exact ⟨stored, fun same => absurd same apart⟩

theorem follows_set {i : Nat} {exchange : Exchange}
    (exchanges : s'.exchanges = s.exchanges.set i exchange) (moved : Follows s s' i exchange)
    (j : Nat) (exchange' : Exchange)
    (here : s'.exchanges[j]? = some exchange') : Follows s s' j exchange' := by
  rw [exchanges, List.getElem?_set] at here
  by_cases same : i = j
  · rw [if_pos same] at here
    split at here
    · injection here with here
      rw [← here, ← same]
      exact moved
    · cases here
  · rw [if_neg same] at here
    exact .refl here

theorem follows_same (exchanges : s'.exchanges = s.exchanges) (j : Nat) (exchange' : Exchange)
    (here : s'.exchanges[j]? = some exchange') : Follows s s' j exchange' := by
  rw [exchanges] at here
  exact .refl here

theorem Inv.validated (inv : Inv genUUID s) (distinct : Function.Injective genUUID) {i : Nat}
    {user : UserRow} {oldTokenID : String} (issued : Issued genUUID s oldTokenID)
    (present : ¬ Absent s.state user.id oldTokenID)
    (free : ∀ other ∈ s.exchanges, other.busyWith user.id oldTokenID = false) :
    Inv genUUID { s.setExchange i (.validated user oldTokenID (genUUID s.calls)) with
      calls := s.calls + 1 } := by
  have others : ∀ (j : Nat) other',
      (s.exchanges.set i (.validated user oldTokenID (genUUID s.calls)))[j]? = some other' →
        (j = i ∧ other' = .validated user oldTokenID (genUUID s.calls)) ∨
          (j ≠ i ∧ s.exchanges[j]? = some other') := by
    intro j other' there
    rw [List.getElem?_set] at there
    by_cases same : i = j
    · rw [if_pos same] at there
      split at there
      · injection there with there
        exact .inl ⟨same.symm, there.symm⟩
      · cases there
    · rw [if_neg same] at there
      exact .inr ⟨fun h => same h.symm, there⟩
  have later : ∀ tokenID, Issued genUUID s tokenID →
      ∃ n < s.calls + 1, tokenID = genUUID n := by
    rintro tokenID ⟨n, earlier, same⟩
    exact ⟨n, Nat.lt_succ_of_lt earlier, same⟩
  -- Whoever has the token is past its removal, and then it is not stored.
  have nobody : ∀ (j : Nat) other, s.exchanges[j]? = some other →
      other.claim ≠ some (user.id, oldTokenID) := by
    intro j other there claims
    by_cases removed : other.removed = true
    · exact present (inv.gone j other user.id oldTokenID there claims removed)
    · have idle := free other (List.mem_of_getElem? there)
      rw [busyWith_of_claim claims removed] at idle
      cases idle
  constructor
  · intro userID token stored
    exact later _ (inv.stored userID token stored)
  · intro j other userID tokenID there claims
    rcases others j other there with ⟨-, rfl⟩ | ⟨-, there⟩
    · injection claims with claims
      injection claims with _ sameToken
      rw [← sameToken]
      exact later _ issued
    · exact later _ (inv.claimed j other userID tokenID there claims)
  · intro j other newTokenID there waits
    rcases others j other there with ⟨rfl, rfl⟩ | ⟨apart, there⟩
    · injection waits with waits
      rw [← waits]
      refine ⟨⟨s.calls, Nat.lt_succ_self _, rfl⟩, ?_, ?_, ?_⟩
      · exact fun userID token stored => (inv.stored userID token stored).ne_next distinct
      · intro k third userID tokenID third_there claims
        rcases others k third third_there with ⟨-, rfl⟩ | ⟨-, third_there⟩
        · injection claims with claims
          injection claims with _ sameToken
          rw [← sameToken]
          exact issued.ne_next distinct
        · exact (inv.claimed k third userID tokenID third_there claims).ne_next distinct
      · intro k third third_there waits'
        rcases others k third third_there with ⟨same, -⟩ | ⟨-, third_there⟩
        · exact same
        · exact absurd rfl ((inv.pending k third _ third_there waits').1.ne_next distinct)
    · obtain ⟨known, absent, unclaimed', unique⟩ := inv.pending j other newTokenID there waits
      refine ⟨later _ known, absent, ?_, ?_⟩
      · intro k third userID tokenID third_there claims
        rcases others k third third_there with ⟨-, rfl⟩ | ⟨-, third_there⟩
        · injection claims with claims
          injection claims with _ sameToken
          rw [← sameToken]
          intro same
          rw [same] at present
          exact present (absent user.id)
        · exact unclaimed' k third userID tokenID third_there claims
      · intro k third third_there waits'
        rcases others k third third_there with ⟨-, rfl⟩ | ⟨-, third_there⟩
        · injection waits' with waits'
          exact absurd waits'.symm (known.ne_next distinct)
        · exact unique k third third_there waits'
  · intro j other userID tokenID there claims removed
    rcases others j other there with ⟨-, rfl⟩ | ⟨-, there⟩
    · cases removed
    · exact inv.gone j other userID tokenID there claims removed
  · intro j k other third claim there third_there claims claims'
    rcases others j other there with ⟨rfl, rfl⟩ | ⟨apart, there⟩
    · rcases others k third third_there with ⟨same, -⟩ | ⟨-, third_there⟩
      · exact same.symm
      · injection claims with claims
        rw [← claims] at claims'
        exact absurd claims' (nobody k third third_there)
    · rcases others k third third_there with ⟨-, rfl⟩ | ⟨-, third_there⟩
      · injection claims' with claims'
        rw [← claims'] at claims
        exact absurd claims (nobody j other there)
      · exact inv.alone j k other third claim there third_there claims claims'

theorem authenticate_ok {state : State} {now : Int} {token : Except String RefreshTokenClaims}
    {user : UserRow} {oldTokenID : String}
    (h : authenticateByRefreshToken state now token = .ok (user, oldTokenID)) :
    token = .ok ⟨.ok user.id, oldTokenID⟩ ∧
      ∃ record ∈ state.tokens user.id, record.tokenID = oldTokenID := by
  unfold authenticateByRefreshToken at h
  split at h
  · cases h
  · rename_i claims
    split at h
    · cases h
    · rename_i userID subject
      split at h
      · cases h
      · rename_i record found
        split at h
        · cases h
        · split at h
          · cases h
          · rename_i row stored
            split at h
            · cases h
            · injection h with h
              injection h with sameUser sameToken
              have id : userID = user.id := by
                rw [← sameUser]
                exact (Keyed.Table.find?_eq_some.mp stored).2.symm
              refine ⟨?_, record, ?_, ?_⟩
              · rw [← id, ← subject, ← sameToken]
              · rw [← id]
                exact List.mem_of_find?_eq_some found
              · rw [← sameToken]
                simpa using List.find?_some found

theorem Inv.step (inv : Inv genUUID s) (distinct : Function.Injective genUUID) {a : Action}
    (exclusive : Exclusive s a) (h : step genUUID s a = some s') : Inv genUUID s' := by
  unfold Session.step at h
  cases a with
  | present token =>
      injection h with h
      rw [← h]
      refine inv.quiet (fun _ _ stored => stored) (Nat.le_refl _) ?_
      intro j exchange' here
      have here : (s.exchanges ++ [.presented token])[j]? = some exchange' := here
      rw [List.getElem?_append] at here
      split at here
      · exact .refl here
      · have last := List.mem_of_getElem? here
        rw [List.mem_singleton.mp last]
        exact .inl ⟨rfl, rfl⟩
  | validate i now =>
      dsimp only at h
      split at h
      · rename_i token here
        split at h
        · injection h with h
          rw [← h]
          exact inv.quiet (fun _ _ stored => stored) (Nat.le_refl _)
            (follows_set rfl (.inl ⟨rfl, rfl⟩))
        · rename_i user oldTokenID valid
          injection h with h
          obtain ⟨claims, record, stored, id⟩ := authenticate_ok valid
          rw [← h]
          refine inv.validated distinct ?_ ?_ ?_
          · rw [← id]
            exact inv.stored user.id record stored
          · exact fun absent => absent record stored id
          · unfold Exclusive Session.exclusive at exclusive
            dsimp only at exclusive
            rw [here, claims] at exclusive
            simpa using exclusive
      · cases h
  | add i now clientInfo =>
      dsimp only at h
      split at h
      · rename_i user oldTokenID newTokenID here
        injection h with h
        have moved : Inv genUUID (s.setExchange i (.added user oldTokenID newTokenID)) :=
          inv.quiet (fun _ _ stored => stored) (Nat.le_refl _)
            (follows_set rfl (.inr ⟨_, here, rfl, .inl rfl, nofun⟩))
        obtain ⟨known, absent, unclaimed, unique⟩ := inv.pending i _ newTokenID here rfl
        rw [← h]
        refine moved.store known ?_ ?_
        · intro j other userID tokenID there claims
          have added : Follows s (s.setExchange i (.added user oldTokenID newTokenID)) i
              (.added user oldTokenID newTokenID) := .inr ⟨_, here, rfl, .inl rfl, nofun⟩
          have follows := follows_set rfl added j other there
          rcases follows with ⟨none, -⟩ | ⟨before, there', same, -⟩
          · rw [none] at claims
            cases claims
          · exact unclaimed j before userID tokenID there' (same.symm.trans claims)
        · intro j other there waits
          have there : (s.exchanges.set i (.added user oldTokenID newTokenID))[j]? = some other :=
            there
          rw [List.getElem?_set] at there
          by_cases same : i = j
          · rw [if_pos same] at there
            split at there
            · injection there with there
              rw [← there] at waits
              cases waits
            · cases there
          · rw [if_neg same] at there
            exact same (unique j other there waits).symm
      · cases h
  | remove i =>
      dsimp only at h
      split at h
      · rename_i user oldTokenID newTokenID here
        injection h with h
        rw [← h]
        have removed : ∀ userID, ∀ token ∈ (removeUserRefreshToken s.state user.id
            oldTokenID).tokens userID, token ∈ s.state.tokens userID ∧
              (userID = user.id → token.tokenID ≠ oldTokenID) :=
          removeUserRefreshToken_spec s.state user.id oldTokenID
        refine inv.quiet (fun userID token stored => (removed userID token stored).1)
          (Nat.le_refl _) (follows_set rfl (.inr ⟨_, here, rfl, .inl rfl, fun _ => .inr ?_⟩))
        intro userID tokenID claims token stored
        injection claims with claims
        injection claims with sameUser sameToken
        rw [← sameToken]
        exact (removed userID token stored).2 sameUser.symm
      · cases h
  | answer i succeeded =>
      dsimp only at h
      split at h
      · rename_i user oldTokenID newTokenID here
        injection h with h
        rw [← h]
        exact inv.quiet (fun _ _ stored => stored) (Nat.le_refl _)
          (follows_set rfl (.inr ⟨_, here, rfl, .inl rfl, fun _ => .inl rfl⟩))
      · cases h
  | fail i =>
      unfold Exclusive Session.exclusive at exclusive
      dsimp only at h exclusive
      split at h
      · injection h with h
        rw [← h]
        exact inv.quiet (fun _ _ stored => stored) (Nat.le_refl _)
          (follows_set rfl (.inl ⟨rfl, rfl⟩))
      · injection h with h
        rw [← h]
        exact inv.quiet (fun _ _ stored => stored) (Nat.le_refl _)
          (follows_set rfl (.inl ⟨rfl, rfl⟩))
      · rename_i here
        rw [here] at exclusive
        cases exclusive
      · cases h
  | signIn userID now clientInfo =>
      injection h with h
      have later : Inv genUUID { s with calls := s.calls + 1 } :=
        inv.quiet (fun _ _ stored => stored) (Nat.le_succ _) (follows_same rfl)
      rw [← h]
      refine later.store ⟨s.calls, Nat.lt_succ_self _, rfl⟩ ?_ ?_
      · exact fun j other user tokenID there claims =>
          (inv.claimed j other user tokenID there claims).ne_next distinct
      · intro j other there waits
        exact absurd rfl ((inv.pending j other _ there waits).1.ne_next distinct)
  | revoke userID tokenID =>
      injection h with h
      rw [← h]
      exact inv.quiet
        (fun user token stored => (removeUserRefreshToken_spec s.state userID tokenID user token stored).1)
        (Nat.le_refl _) (follows_same rfl)
  | deleteTokens userID =>
      injection h with h
      rw [← h]
      refine inv.quiet ?_ (Nat.le_refl _) (follows_same rfl)
      intro user token stored
      have stored : token ∈ if user = userID then [] else s.state.tokens user := stored
      split at stored
      · cases stored
      · exact stored
  | changeUsers users =>
      injection h with h
      rw [← h]
      exact inv.quiet (fun _ _ stored => stored) (Nat.le_refl _) (follows_same rfl)
  | generate =>
      injection h with h
      rw [← h]
      exact inv.quiet (fun _ _ stored => stored) (Nat.le_succ _) (follows_same rfl)

end Invariant

/-! ### The tokens of a sign-in -/

/-- The successor, once it is stored. -/
def Exchange.successor : Exchange → Option String
  | .added _ _ newTokenID | .rotated _ _ newTokenID | .answered _ _ newTokenID _ => some newTokenID
  | _ => none

/-- Somebody got the second token for the first one. -/
def Succeeds (s : Server) (userID : Int) (tokenID newTokenID : String) : Prop :=
  ∃ exchange ∈ s.exchanges, exchange.claim = some (userID, tokenID) ∧
    exchange.successor = some newTokenID

/-- The token goes back to a sign-in that stored the first one. -/
def Descends (s : Server) (userID : Int) : String → String → Prop :=
  Relation.ReflTransGen (Succeeds s userID)

/-- The token is stored, and no call is about to remove it for its successor. -/
def Live (s : Server) (userID : Int) (tokenID : String) : Prop :=
  (∃ token ∈ s.state.tokens userID, token.tokenID = tokenID) ∧
    ∀ user newTokenID, .added user tokenID newTokenID ∈ s.exchanges → user.id ≠ userID

section Tokens

variable {genUUID : Nat → String} {s : Server}

theorem Inv.one_successor (inv : Inv genUUID s) (userID : Int) :
    Relator.RightUnique (Succeeds s userID) := by
  rintro tokenID next next' ⟨exchange, here, claims, stored⟩ ⟨other, there, claims', stored'⟩
  obtain ⟨i, here⟩ := List.getElem?_of_mem here
  obtain ⟨j, there⟩ := List.getElem?_of_mem there
  have same := inv.alone i j exchange other _ here there claims claims'
  rw [same, there] at here
  injection here with here
  rw [← here, stored'] at stored
  injection stored with stored
  exact stored.symm

theorem Inv.last (inv : Inv genUUID s) {userID : Int} {tokenID next : String}
    (live : Live s userID tokenID) : ¬ Succeeds s userID tokenID next := by
  rintro ⟨exchange, here, claims, stored⟩
  obtain ⟨⟨token, present, id⟩, untouched⟩ := live
  by_cases removed : exchange.removed = true
  · obtain ⟨i, here'⟩ := List.getElem?_of_mem here
    exact inv.gone i exchange userID tokenID here' claims removed token present id
  · cases exchange with
    | added user oldTokenID newTokenID =>
        injection claims with claims
        injection claims with sameUser sameToken
        rw [sameToken] at here
        exact untouched user newTokenID here sameUser
    | rotated _ _ _ => exact removed rfl
    | answered _ _ _ _ => exact removed rfl
    | presented token => cases claims
    | validated _ _ _ => cases stored
    | refused => cases claims

theorem Inv.one_live (inv : Inv genUUID s) {userID : Int} {first tokenID other : String}
    (descends : Descends s userID first tokenID) (descends' : Descends s userID first other)
    (live : Live s userID tokenID) (live' : Live s userID other) : tokenID = other := by
  rcases Relation.ReflTransGen.total_of_right_unique (inv.one_successor userID) descends
    descends' with later | earlier
  · rcases Relation.ReflTransGen.cases_head later with same | ⟨next, succeeds, -⟩
    · exact same
    · exact absurd succeeds (inv.last live)
  · rcases Relation.ReflTransGen.cases_head earlier with same | ⟨next, succeeds, -⟩
    · exact same.symm
    · exact absurd succeeds (inv.last live')

end Tokens

/-! ### The result -/

/-- **How often a refresh token can be used.**

Take any run, from a server on which nobody has signed in, in which no call finds a token
valid that another call is busy with, and no removal fails.  At most one of the calls
that present a token succeeds; once a call is past the removal, the token is not stored
any more; and of all tokens that go back to one sign-in at most one is live. -/
theorem token_used_once (genUUID : Nat → String) (distinct : Function.Injective genUUID)
    (users : Keyed.Table UserRow.schema) {s : Server}
    (run : Run (step genUUID) Exclusive (.idle users) s) :
    (∀ (i j : Nat) user user' tokenID newTokenID newTokenID',
      s.exchanges[i]? = some (.answered user tokenID newTokenID true) →
      s.exchanges[j]? = some (.answered user' tokenID newTokenID' true) →
        user.id = user'.id → i = j) ∧
    (∀ exchange ∈ s.exchanges, ∀ userID tokenID, exchange.claim = some (userID, tokenID) →
      exchange.removed = true → Absent s.state userID tokenID) ∧
    ∀ userID first tokenID other, Descends s userID first tokenID → Descends s userID first other →
      Live s userID tokenID → Live s userID other → tokenID = other := by
  have start : Inv genUUID (.idle users) := by
    have nobody : ∀ (i : Nat) exchange, (Server.idle users).exchanges[i]? ≠ some exchange := by
      intro i exchange here
      cases here
    constructor
    · exact fun _ _ stored => absurd stored List.not_mem_nil
    · exact fun i exchange _ _ here _ => absurd here (nobody i exchange)
    · exact fun i exchange _ here _ => absurd here (nobody i exchange)
    · exact fun i exchange _ _ here _ _ => absurd here (nobody i exchange)
    · exact fun i _ exchange _ _ here _ _ _ => absurd here (nobody i exchange)
  have inv : Inv genUUID s :=
    run.invariant start fun _ _ _ inv exclusive next => inv.step distinct exclusive next
  refine ⟨?_, ?_, fun userID first tokenID other => inv.one_live⟩
  · intro i j user user' tokenID newTokenID newTokenID' here there same
    refine inv.alone i j _ _ (user.id, tokenID) here there rfl ?_
    show some (user'.id, tokenID) = _
    rw [same]
  · intro exchange here userID tokenID claims removed
    obtain ⟨i, here⟩ := List.getElem?_of_mem here
    exact inv.gone i exchange userID tokenID here claims removed

/-! ### An exchange and its repetition -/

def oneUser : Keyed.Table UserRow.schema :=
  ⟨[.withDefaults 1 "ivo"], by decide, by decide⟩

def lengths (n : Nat) : String := String.ofList (List.replicate n 'a')

theorem lengths_injective : Function.Injective lengths := by
  intro n m same
  have lists : List.replicate n 'a' = List.replicate m 'a' := String.ofList_injective same
  have length := congrArg List.length lists
  rwa [List.length_replicate, List.length_replicate] at length

def firstToken : Except String RefreshTokenClaims := .ok ⟨.ok 1, lengths 0⟩

def exchangeOnce : List Action :=
  [.signIn 1 0 "phone", .present firstToken, .validate 0 10, .add 0 10 "phone", .remove 0,
    .answer 0 true]

theorem token_used_once_exchanged : ∃ s,
    follow (step lengths) Exclusive (.idle oneUser) exchangeOnce = some s ∧
    Absent s.state 1 (lengths 0) := by
  refine ⟨_, rfl, ?_⟩
  have once : follow (step lengths) Exclusive (.idle oneUser) exchangeOnce = some _ := rfl
  exact (token_used_once lengths lengths_injective oneUser (run_of_follow once)).2.1
    (.answered (.withDefaults 1 "ivo") (lengths 0) (lengths 1) true) List.mem_cons_self 1
    (lengths 0) rfl rfl

/-- The removal fails, and the token is presented again. -/
def exchangeTwice : List Action :=
  [.signIn 1 0 "phone", .present firstToken, .validate 0 10, .add 0 10 "phone", .fail 0,
    .answer 0 true, .present firstToken, .validate 1 20, .add 1 20 "phone", .remove 1,
    .answer 1 true]

/-- Both exchanges succeed, and the session has two tokens. -/
theorem token_used_twice : ∃ s,
    follow (step lengths) (fun _ _ => True) (.idle oneUser) exchangeTwice = some s ∧
    s.exchanges[0]? = some (.answered (.withDefaults 1 "ivo") (lengths 0) (lengths 1) true) ∧
    s.exchanges[1]? = some (.answered (.withDefaults 1 "ivo") (lengths 0) (lengths 2) true) ∧
    (s.state.tokens 1).map RefreshToken.tokenID = [lengths 1, lengths 2] :=
  ⟨_, rfl, rfl, rfl, rfl⟩

end Memos.Api.Session

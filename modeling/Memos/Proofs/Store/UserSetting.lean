/-
When the removal of a token is final.

Between the query of a reader and its access to the cache another call may remove a
token, from the row and from the cache.  The reader then puts the list it read before
into the cache: the token is back for everybody who asks the cache, and the next call
that adds a token writes it back to the row.

Nothing else can go wrong.  As long as no reader fills the cache with anything but what
the row holds at that moment, a removed token is in neither place ever after.  The mutex
is what the proof rests on: when a removal has written the row and the cache, no other
call is between its own read and its write, so every later list is made from lists
without the token.
-/
import Memos.Store.UserSetting

namespace Memos.Store.Tokens

open Runs

/-! ### What a call has seen -/

def Lacks (id : String) (tokens : List Token) : Prop := ∀ token ∈ tokens, token.tokenID ≠ id

def Thread.op : Thread → Operation
  | .called op | .reading op | .missed op | .filling op _ _ | .upserting op _ | .caching op _
  | .returning op _ | .returned op _ | .failed op => op

def Thread.ended : Thread → Bool
  | .returned _ _ | .failed _ => true
  | _ => false

def Thread.critical (thread : Thread) : Bool :=
  thread.op.locks && !thread.ended && match thread with
    | .called _ => false
    | _ => true

def Thread.seen : Thread → List UserSetting
  | .filling _ settings fills => settings ++ fills
  | .upserting op tokens | .caching op tokens => [⟨op.userID, tokens⟩]
  | .returning _ settings | .returned _ settings => settings
  | _ => []

/-- The operation adds the token of that id to the user's. -/
def Operation.adds (userID : Int) (id : String) : Operation → Bool
  | .addToken user token => decide (user = userID) && decide (token.tokenID = id)
  | _ => false

/-- The settings have no token of that id for the user. -/
def Clear (userID : Int) (id : String) (settings : List UserSetting) : Prop :=
  ∀ setting ∈ settings, setting.userID = userID → Lacks id setting.tokens

theorem lacks_updatedTokens {id tokenID : String} {lastUsed : Option Int} {tokens written : List Token}
    (h : Lacks id tokens) (updated : updatedTokens tokenID lastUsed tokens = some written) :
    Lacks id written := by
  induction tokens generalizing written with
  | nil => cases updated
  | cons token rest ih =>
      rw [updatedTokens] at updated
      have first : token.tokenID ≠ id := h token List.mem_cons_self
      have others : Lacks id rest := fun x hx => h x (List.mem_cons_of_mem token hx)
      split at updated
      · split at updated
        · cases updated
        · injection updated with updated
          rw [← updated]
          rintro x hx
          rcases List.mem_cons.mp hx with rfl | hx
          · exact first
          · exact others x hx
      · obtain ⟨later, hlater, rfl⟩ := Option.map_eq_some_iff.mp updated
        intro x hx
        rcases List.mem_cons.mp hx with rfl | hx
        · exact first
        · exact ih others hlater x hx

/-- A list made from one without the token is without it, unless the token is added. -/
theorem lacks_write {op : Operation} {userID : Int} {id : String} {tokens written : List Token}
    (h : Lacks id tokens) (user : op.userID = userID) (other : op.adds userID id = false)
    (hw : op.write tokens = some written) : Lacks id written := by
  cases op with
  | getTokens user => cases hw
  | listSettings user => cases hw
  | addToken user' token =>
      injection hw with hw
      rw [← hw]
      have user : user' = userID := user
      rw [Operation.adds, decide_eq_true user, Bool.true_and, decide_eq_false_iff_not] at other
      intro x hx
      rcases List.mem_append.mp hx with hx | hx
      · exact h x hx
      · rw [List.mem_singleton.mp hx]
        exact other
  | removeToken user tokenID =>
      injection hw with hw
      rw [← hw]
      exact fun x hx => h x (List.mem_of_mem_filter hx)
  | updateLastUsed user tokenID lastUsed => exact lacks_updatedTokens h hw

theorem lacks_removeToken {userID : Int} {id : String} {tokens written : List Token}
    (hw : (Operation.removeToken userID id).write tokens = some written) : Lacks id written := by
  injection hw with hw
  rw [← hw]
  intro x hx
  simpa using List.of_mem_filter hx

theorem lacks_tokensOf {userID : Int} {id : String} {settings : List UserSetting}
    (h : Clear userID id settings) (user : ∀ setting ∈ settings, setting.userID = userID) :
    Lacks id (tokensOf settings) := by
  cases settings with
  | nil => exact fun _ hx => absurd hx List.not_mem_nil
  | cons setting rest =>
      exact h setting List.mem_cons_self (user setting List.mem_cons_self)

/-! ### What a step does -/

/-- Row and cache of the user are without the token. -/
structure Gone (userID : Int) (id : String) (s : State) : Prop where
  row : ∀ tokens, s.rows.lookup userID = some tokens → Lacks id tokens
  cached : ∀ tokens, s.cache userID = some tokens → Lacks id tokens

/-- A call that writes knows settings of its own user only. -/
def Thread.Own (thread : Thread) : Prop :=
  thread.op.locks = true → ∀ setting ∈ thread.seen, setting.userID = thread.op.userID

/-- A call goes from one place to the next. -/
structure Moved (s s' : State) (i : Nat) (thread thread' : Thread) : Prop where
  threads : s'.threads = s.threads.set i thread'
  op : thread'.op = thread.op
  active : thread.ended = false
  enters : thread'.critical = true →
    (thread.critical = true ∧ s'.mutex = s.mutex) ∨ (thread.seen = [] ∧ s'.mutex = some i)
  leaves : ∀ j, s.mutex = some j → s'.mutex = some j ∨ thread.critical = true
  own : thread.Own → thread'.Own
  rows : s'.rows = s.rows ∨ ∃ op tokens, thread = .upserting op tokens ∧
    thread' = .caching op tokens ∧ s'.rows = s.rows.insert op.userID tokens
  cache : s'.cache = s.cache ∨ ∃ setting ∈ thread.seen, s'.cache = (s.setCache setting).cache ∧
    ((∃ op settings fills, thread = .filling op settings (setting :: fills)) ∨
      ∃ op tokens, thread = .caching op tokens)
  caching : ∀ op tokens, thread' = .caching op tokens →
    thread = .upserting op tokens ∧ s'.rows = s.rows.insert op.userID tokens
  upserting : ∀ op tokens, thread' = .upserting op tokens →
    ∃ settings, op.write (tokensOf settings) = some tokens
  returning : ∀ op settings, thread' = .returning op settings →
    (∃ tokens, thread = .caching op tokens ∧
      s' = (s.setCache ⟨op.userID, tokens⟩).setThread i thread' ∧
      settings = [⟨op.userID, tokens⟩]) ∨
    ∃ known, op.write known = none
  returned : ∀ op settings, thread' = .returned op settings → thread = .returning op settings
  clear : ∀ userID id, Gone userID id s → thread.Own → Clear userID id thread.seen →
    thread.op.adds userID id = false → Clear userID id thread'.seen

theorem proceed_op (op : Operation) (settings : List UserSetting) :
    (proceed op settings).op = op := by
  unfold proceed
  cases op.write (tokensOf settings) with
  | none => rfl
  | some tokens => rfl

theorem proceed_ended (op : Operation) (settings : List UserSetting) :
    (proceed op settings).ended = false := by
  unfold proceed
  cases op.write (tokensOf settings) with
  | none => rfl
  | some tokens => rfl

theorem proceed_critical (op : Operation) (settings : List UserSetting) :
    (proceed op settings).critical = op.locks := by
  unfold proceed Thread.critical
  cases op.write (tokensOf settings) with
  | none => simp [Thread.op, Thread.ended]
  | some tokens => simp [Thread.op, Thread.ended]

theorem proceed_own {op : Operation} {settings : List UserSetting}
    (own : op.locks = true → ∀ setting ∈ settings, setting.userID = op.userID) :
    (proceed op settings).Own := by
  unfold Thread.Own
  rw [proceed_op]
  intro locks
  unfold proceed
  cases op.write (tokensOf settings) with
  | none => exact own locks
  | some tokens =>
      intro setting hs
      rw [List.mem_singleton.mp hs]

theorem proceed_not_caching (op op' : Operation) (settings : List UserSetting)
    (tokens : List Token) : proceed op settings ≠ .caching op' tokens := by
  unfold proceed
  cases op.write (tokensOf settings) with
  | none => exact fun h => nomatch h
  | some tokens' => exact fun h => nomatch h

theorem proceed_upserting {op op' : Operation} {settings : List UserSetting} {tokens : List Token}
    (h : proceed op settings = .upserting op' tokens) :
    op'.write (tokensOf settings) = some tokens := by
  unfold proceed at h
  cases written : op.write (tokensOf settings) with
  | none =>
      rw [written] at h
      cases h
  | some tokens' =>
      rw [written] at h
      cases h
      exact written

theorem proceed_returning {op op' : Operation} {settings settings' : List UserSetting}
    (h : proceed op settings = .returning op' settings') : ∃ known, op'.write known = none := by
  unfold proceed at h
  cases written : op.write (tokensOf settings) with
  | none =>
      rw [written] at h
      cases h
      exact ⟨_, written⟩
  | some tokens =>
      rw [written] at h
      cases h

theorem proceed_not_returned (op op' : Operation) (settings settings' : List UserSetting) :
    proceed op settings ≠ .returned op' settings' := by
  intro h
  have ended := proceed_ended op settings
  rw [h] at ended
  cases ended

theorem locks_of_write {op : Operation} {tokens written : List Token}
    (h : op.write tokens = some written) : op.locks = true := by
  cases op with
  | getTokens user => cases h
  | listSettings user => cases h
  | addToken user token => rfl
  | removeToken user tokenID => rfl
  | updateLastUsed user tokenID lastUsed => rfl

theorem proceed_clear {op : Operation} {settings : List UserSetting} {userID : Int} {id : String}
    (h : Clear userID id settings)
    (own : op.locks = true → ∀ setting ∈ settings, setting.userID = op.userID)
    (other : op.adds userID id = false) : Clear userID id (proceed op settings).seen := by
  unfold proceed
  cases written : op.write (tokensOf settings) with
  | none => exact h
  | some tokens =>
      intro setting hs user
      rw [List.mem_singleton.mp hs] at user ⊢
      have own := own (locks_of_write written)
      have same : ∀ setting ∈ settings, setting.userID = userID := fun x hx => (own x hx).trans user
      exact lacks_write (lacks_tokensOf h same) user other written

theorem clear_query {rows : AList fun _ : Int => List Token} {userID : Int} {id : String}
    (row : ∀ tokens, rows.lookup userID = some tokens → Lacks id tokens) (op : Operation) :
    Clear userID id (op.query rows) := by
  intro setting hs user
  unfold Operation.query at hs
  split at hs
  · rename_i user' _
    rw [Option.mem_toList, Option.map_eq_some_iff] at hs
    obtain ⟨tokens, found, rfl⟩ := hs
    have user : user' = userID := user
    rw [user] at found
    exact row tokens found
  · obtain ⟨⟨user', tokens⟩, hrow, rfl⟩ := List.mem_map.mp hs
    have user : user' = userID := user
    rw [user] at hrow
    exact row tokens (AList.mem_lookup_iff.mpr hrow)

theorem own_query {op : Operation} (rows : AList fun _ : Int => List Token)
    (locks : op.locks = true) : ∀ setting ∈ op.query rows, setting.userID = op.userID := by
  intro setting hs
  have named : op.user? = some op.userID := by
    cases op with
    | getTokens user => rfl
    | listSettings user => cases locks
    | addToken user token => rfl
    | removeToken user tokenID => rfl
    | updateLastUsed user tokenID lastUsed => rfl
  rw [Operation.query, named] at hs
  dsimp only at hs
  rw [Option.mem_toList, Option.map_eq_some_iff] at hs
  obtain ⟨tokens, -, rfl⟩ := hs
  rfl

theorem mem_of_mem_fills {op : Operation} {settings : List UserSetting} {setting : UserSetting}
    (h : setting ∈ op.fills settings) : setting ∈ settings := by
  unfold Operation.fills at h
  split at h
  · exact h
  · rcases List.mem_append.mp h with h | h
    · exact h
    · exact List.mem_of_mem_take h

/-- A step that touches neither the row nor the cache nor the mutex. -/
theorem Moved.plain {s s' : State} {i : Nat} {thread thread' : Thread}
    (state : s' = s.setThread i thread') (op : thread'.op = thread.op)
    (active : thread.ended = false) (critical : thread'.critical = true → thread.critical = true)
    (own : thread.Own → thread'.Own)
    (caching : ∀ op tokens, thread' ≠ .caching op tokens)
    (upserting : ∀ op tokens, thread' = .upserting op tokens →
      ∃ settings, op.write (tokensOf settings) = some tokens)
    (returning : ∀ op settings, thread' = .returning op settings → ∃ known, op.write known = none)
    (returned : ∀ op settings, thread' ≠ .returned op settings)
    (clear : ∀ userID id, Gone userID id s → thread.Own → Clear userID id thread.seen →
      thread.op.adds userID id = false → Clear userID id thread'.seen) :
    Moved s s' i thread thread' := by
  rw [state]
  exact ⟨rfl, op, active, fun h => .inl ⟨critical h, rfl⟩, fun _ h => .inl h, own, .inl rfl,
    .inl rfl, fun op tokens h => absurd h (caching op tokens), upserting,
    fun op settings h => .inr (returning op settings h),
    fun op settings h => absurd h (returned op settings), clear⟩

theorem own_of_seen_nil {thread : Thread} (h : thread.seen = []) : thread.Own := by
  intro _ setting hs
  rw [h] at hs
  exact absurd hs List.not_mem_nil

theorem clear_nil (userID : Int) (id : String) : Clear userID id [] :=
  fun _ hs => absurd hs List.not_mem_nil

/-- A step to a place where the call has seen nothing. -/
theorem Moved.blank {s s' : State} {i : Nat} {thread thread' : Thread}
    (threads : s'.threads = s.threads.set i thread') (rows : s'.rows = s.rows)
    (cache : s'.cache = s.cache) (op : thread'.op = thread.op) (active : thread.ended = false)
    (enters : thread'.critical = true →
      (thread.critical = true ∧ s'.mutex = s.mutex) ∨ (thread.seen = [] ∧ s'.mutex = some i))
    (leaves : ∀ j, s.mutex = some j → s'.mutex = some j ∨ thread.critical = true)
    (seen : thread'.seen = []) (returned : ∀ op settings, thread' ≠ .returned op settings)
    (returning : ∀ op settings, thread' ≠ .returning op settings) : Moved s s' i thread thread' := by
  refine ⟨threads, op, active, enters, leaves, fun _ => own_of_seen_nil seen, .inl rows, .inl cache,
    fun op tokens h => ?_, fun op tokens h => ?_, fun op settings h => absurd h (returning op settings),
    fun op settings h => absurd h (returned op settings),
    fun u id _ _ _ _ => seen ▸ clear_nil u id⟩
  · rw [h] at seen
    cases seen
  · rw [h] at seen
    cases seen

theorem first_spec (op : Operation) :
    op.first.op = op ∧ op.first.seen = [] ∧
      (∀ op' settings, op.first ≠ .returned op' settings) ∧
      ∀ op' settings, op.first ≠ .returning op' settings := by
  cases op with
  | listSettings user => exact ⟨rfl, rfl, fun _ _ h => (nomatch h), fun _ _ h => nomatch h⟩
  | _ => exact ⟨rfl, rfl, fun _ _ h => (nomatch h), fun _ _ h => nomatch h⟩

theorem runThread_moved {s s' : State} {i : Nat} {thread : Thread}
    (h : runThread s i thread = some s') : ∃ thread', Moved s s' i thread thread' := by
  cases thread with
  | called op =>
      rw [runThread, enter] at h
      obtain ⟨same, seen, returned, returning⟩ := first_spec op
      split at h
      · cases h
      · rename_i free
        injection h with h
        rw [← h]
        refine ⟨_, .blank rfl rfl rfl same rfl (fun _ => .inr ⟨rfl, rfl⟩) (fun j held => ?_) seen
          returned returning⟩
        rw [free] at held
        cases held
      · rename_i reader
        injection h with h
        rw [← h]
        refine ⟨_, .blank rfl rfl rfl same rfl (fun c => ?_) (fun _ held => .inl held) seen returned
          returning⟩
        simp only [Thread.critical, same, reader] at c
        cases c
  | reading op =>
      rw [runThread] at h
      split at h
      · rename_i tokens hit
        injection h with h
        refine ⟨_, .plain h.symm (proceed_op _ _) rfl (fun c => ?_) (fun _ => proceed_own ?_)
          (fun _ _ => proceed_not_caching _ _ _ _) (fun _ _ h => ⟨_, proceed_upserting h⟩)
          (fun _ _ => proceed_returning) (fun _ _ => proceed_not_returned _ _ _ _) ?_⟩
        · rw [proceed_critical] at c
          simp [Thread.critical, Thread.op, Thread.ended, c]
        · intro _ setting hs
          rw [List.mem_singleton.mp hs]
        · intro userID id gone _ _ other
          refine proceed_clear (fun setting hs user => ?_) (fun _ setting hs => ?_) other
          · rw [List.mem_singleton.mp hs] at user ⊢
            have user : op.userID = userID := user
            rw [user] at hit
            exact gone.cached tokens hit
          · rw [List.mem_singleton.mp hs]
      · injection h with h
        rw [← h]
        exact ⟨.missed op, .blank rfl rfl rfl rfl rfl (fun c => .inl ⟨c, rfl⟩)
          (fun _ held => .inl held) rfl (fun _ _ h => nomatch h) fun _ _ h => nomatch h⟩
  | missed op =>
      injection h with h
      refine ⟨_, .plain h.symm rfl rfl (fun c => c) (fun _ locks setting hs => ?_)
        (fun _ _ h => nomatch h) (fun _ _ h => nomatch h) (fun _ _ h => nomatch h)
        (fun _ _ h => nomatch h) fun userID id gone _ _ _ => ?_⟩
      · rcases List.mem_append.mp hs with hs | hs
        · exact own_query s.rows locks setting hs
        · exact own_query s.rows locks setting (mem_of_mem_fills hs)
      · intro setting hs
        rcases List.mem_append.mp hs with hs | hs
        · exact clear_query gone.row op setting hs
        · exact clear_query gone.row op setting (mem_of_mem_fills hs)
  | filling op settings fills =>
      cases fills with
      | nil =>
          injection h with h
          refine ⟨_, .plain h.symm (proceed_op _ _) rfl (fun c => ?_) (fun own => proceed_own ?_)
            (fun _ _ => proceed_not_caching _ _ _ _) (fun _ _ h => ⟨_, proceed_upserting h⟩)
            (fun _ _ => proceed_returning) (fun _ _ => proceed_not_returned _ _ _ _) ?_⟩
          · rw [proceed_critical] at c
            simp [Thread.critical, Thread.op, Thread.ended, c]
          · exact fun locks setting hs => own locks setting (List.mem_append_left _ hs)
          · intro userID id _ own seen other
            refine proceed_clear (fun setting hs => seen setting (List.mem_append_left _ hs)) ?_ other
            exact fun locks setting hs => own locks setting (List.mem_append_left _ hs)
      | cons setting fills =>
          injection h with h
          rw [← h]
          have fewer : ∀ x ∈ (Thread.filling op settings fills).seen,
              x ∈ (Thread.filling op settings (setting :: fills)).seen := by
            intro x hx
            rcases List.mem_append.mp hx with hx | hx
            · exact List.mem_append_left _ hx
            · exact List.mem_append_right _ (List.mem_cons_of_mem setting hx)
          refine ⟨.filling op settings fills, rfl, rfl, rfl, fun c => .inl ⟨c, rfl⟩,
            fun _ held => .inl held, fun own locks x hx => own locks x (fewer x hx), .inl rfl, ?_,
            fun _ _ h => (nomatch h), fun _ _ h => (nomatch h), fun _ _ h => (nomatch h),
            fun _ _ h => (nomatch h), fun _ _ _ _ seen _ x hx => seen x (fewer x hx)⟩
          exact .inr ⟨setting, List.mem_append_right _ List.mem_cons_self, rfl,
            .inl ⟨op, settings, fills, rfl⟩⟩
  | upserting op tokens =>
      injection h with h
      rw [← h]
      refine ⟨.caching op tokens, rfl, rfl, rfl, fun c => .inl ⟨c, rfl⟩, fun _ held => .inl held,
        fun own => own, .inr ⟨op, tokens, rfl, rfl, rfl⟩, .inl rfl, fun op' tokens' same => ?_,
        fun _ _ h => (nomatch h), fun _ _ h => (nomatch h), fun _ _ h => (nomatch h),
        fun _ _ _ _ seen _ => seen⟩
      injection same with same_op same_tokens
      rw [← same_op, ← same_tokens]
      exact ⟨rfl, rfl⟩
  | caching op tokens =>
      injection h with h
      rw [← h]
      refine ⟨.returning op [⟨op.userID, tokens⟩], rfl, rfl, rfl, fun c => .inl ⟨c, rfl⟩,
        fun _ held => .inl held, fun own => own, .inl rfl,
        .inr ⟨_, List.mem_cons_self, rfl, .inr ⟨op, tokens, rfl⟩⟩, fun _ _ h => (nomatch h),
        fun _ _ h => (nomatch h), fun op' settings same => ?_, fun _ _ h => (nomatch h),
        fun _ _ _ _ seen _ => seen⟩
      injection same with same_op same_settings
      rw [← same_op, ← same_settings]
      exact .inl ⟨tokens, rfl, rfl, rfl⟩
  | returning op settings =>
      injection h with h
      rw [← h]
      refine ⟨.returned op settings, rfl, rfl, rfl, fun c => ?_, fun j held => ?_,
        fun own => own, .inl rfl, .inl rfl, fun _ _ h => (nomatch h), fun _ _ h => (nomatch h),
        fun _ _ h => (nomatch h), fun op' settings' same => ?_, fun _ _ _ _ seen _ => seen⟩
      · simp [Thread.critical, Thread.ended] at c
      · cases locks : op.locks with
        | false => exact .inl held
        | true => exact .inr (by simp [Thread.critical, Thread.op, Thread.ended, locks])
      · injection same with same_op same_settings
        rw [← same_op, ← same_settings]
  | returned op settings => cases h
  | failed op => cases h

theorem failThread_moved {s s' : State} {i : Nat} {thread : Thread}
    (h : failThread s i thread = some s') : ∃ thread', Moved s s' i thread thread' := by
  have failed : ∀ op, thread.op = op → thread.ended = false →
      thread.critical = op.locks →
      s' = { s.setThread i (.failed op) with mutex := if op.locks then none else s.mutex } →
      Moved s s' i thread (.failed op) := by
    rintro op same active critical rfl
    refine .blank rfl rfl rfl same.symm active (fun c => ?_) (fun j held => ?_) rfl
      (fun _ _ h => nomatch h) fun _ _ h => nomatch h
    · simp [Thread.critical, Thread.ended] at c
    · cases locks : op.locks with
      | false => exact .inl held
      | true => exact .inr (critical.trans locks)
  unfold failThread at h
  split at h
  · rename_i op
    injection h with h
    exact ⟨_, failed op rfl rfl (by simp [Thread.critical, Thread.op, Thread.ended]) h.symm⟩
  · rename_i op tokens
    injection h with h
    exact ⟨_, failed op rfl rfl (by simp [Thread.critical, Thread.op, Thread.ended]) h.symm⟩
  · cases h

/-! ### What always holds -/

/-- The id of the token is fresh when it is added, and the token is removed only after it
was added. -/
def FreshToken (userID : Int) (id : String) (s : State) : Action → Prop
  | .call op =>
      (op.adds userID id = true → ∀ thread ∈ s.threads, thread.op ≠ .removeToken userID id) ∧
      (op = .removeToken userID id →
        ∀ thread ∈ s.threads, thread.op.adds userID id = true → thread.ended = true)
  | _ => True

/-- A reader that is about to fill the cache puts no list with the token there when the row
is without it. -/
def Thread.Current (userID : Int) (id : String) (s : State) : Thread → Prop
  | .filling op _ (setting :: _) =>
      op.locks = false → setting.userID = userID →
      (∀ tokens ∈ s.rows.lookup userID, Lacks id tokens) → Lacks id setting.tokens
  | _ => True

/-- No reader puts a list with the token into the cache when the row is without it. -/
def NoStaleFill (userID : Int) (id : String) (s : State) : Action → Prop
  | .run i => ∀ thread ∈ s.threads[i]?, thread.Current userID id s
  | _ => True

section Decidable

variable (userID : Int) (id : String) (s : State)

instance (tokens : List Token) : Decidable (Lacks id tokens) :=
  inferInstanceAs (Decidable (∀ token ∈ tokens, token.tokenID ≠ id))

instance : (thread : Thread) → Decidable (thread.Current userID id s)
  | .filling op _ (setting :: _) => inferInstanceAs (Decidable (op.locks = false →
      setting.userID = userID → (∀ tokens ∈ s.rows.lookup userID, Lacks id tokens) →
      Lacks id setting.tokens))
  | .filling _ _ [] | .called _ | .reading _ | .missed _ | .upserting _ _ | .caching _ _
  | .returning _ _ | .returned _ _ | .failed _ => .isTrue trivial

instance : (a : Action) → Decidable (NoStaleFill userID id s a)
  | .run i => inferInstanceAs (Decidable (∀ thread ∈ s.threads[i]?, thread.Current userID id s))
  | .call _ | .fail _ | .evict _ | .deleteRow _ => .isTrue trivial

instance : (a : Action) → Decidable (FreshToken userID id s a)
  | .call op => inferInstanceAs (Decidable
      ((op.adds userID id = true → ∀ thread ∈ s.threads, thread.op ≠ .removeToken userID id) ∧
      (op = .removeToken userID id →
        ∀ thread ∈ s.threads, thread.op.adds userID id = true → thread.ended = true)))
  | .run _ | .fail _ | .evict _ | .deleteRow _ => .isTrue trivial

end Decidable

structure Inv (userID : Int) (id : String) (s : State) : Prop where
  mutex : ∀ i thread, s.threads[i]? = some thread → thread.critical = true → s.mutex = some i
  own : ∀ thread ∈ s.threads, thread.Own
  upserting : ∀ op tokens, Thread.upserting op tokens ∈ s.threads →
    op.locks = true ∧ (op = .removeToken userID id → Lacks id tokens)
  caching : ∀ op tokens, Thread.caching op tokens ∈ s.threads →
    op.locks = true ∧ (op = .removeToken userID id → Lacks id tokens) ∧
      ∀ row, s.rows.lookup op.userID = some row → row = tokens
  fresh : (∃ thread ∈ s.threads, thread.op = .removeToken userID id) →
    ∀ thread ∈ s.threads, thread.op.adds userID id = true → thread.ended = true

section Moved

variable {s s' : State} {i : Nat} {thread thread' : Thread} {userID : Int} {id : String}

/-- The calls after a step are the one that moved, and the others. -/
theorem Moved.getElem? (m : Moved s s' i thread thread') (here : s.threads[i]? = some thread)
    {j : Nat} {other : Thread} :
    s'.threads[j]? = some other ↔ (j = i ∧ other = thread') ∨ (j ≠ i ∧ s.threads[j]? = some other) := by
  rw [m.threads, List.getElem?_set]
  have bound : i < s.threads.length := (List.getElem?_eq_some_iff.mp here).1
  by_cases same : i = j
  · subst same
    simp [bound, eq_comm]
  · simp [same, Ne.symm same]

theorem Moved.mem (m : Moved s s' i thread thread') {other : Thread} (h : other ∈ s'.threads) :
    other = thread' ∨ other ∈ s.threads := by
  rw [m.threads] at h
  exact (List.mem_or_eq_of_mem_set h).symm

theorem critical_of_locks {op : Operation} (locks : op.locks = true) (tokens : List Token) :
    (Thread.upserting op tokens).critical = true ∧ (Thread.caching op tokens).critical = true := by
  simp [Thread.critical, Thread.op, Thread.ended, locks]

theorem Inv.moved (inv : Inv userID id s) (m : Moved s s' i thread thread')
    (here : s.threads[i]? = some thread) : Inv userID id s' := by
  have stored : thread ∈ s.threads := List.mem_of_getElem? here
  have alone : ∀ j other, j ≠ i → s.threads[j]? = some other → other.critical = true →
      thread.critical = false := by
    intro j other hne hj critical
    by_contra both
    rw [Bool.not_eq_false] at both
    have held := inv.mutex j other hj critical
    rw [inv.mutex i thread here both] at held
    exact hne (Option.some.inj held).symm
  constructor
  · intro j other hj critical
    rcases (m.getElem? here).mp hj with ⟨rfl, rfl⟩ | ⟨hne, hj⟩
    · rcases m.enters critical with ⟨before, same⟩ | ⟨-, held⟩
      · rw [same, inv.mutex j thread here before]
      · exact held
    · rcases m.leaves j (inv.mutex j other hj critical) with held | both
      · exact held
      · rw [alone j other hne hj critical] at both
        cases both
  · intro other h
    rcases m.mem h with rfl | h
    · exact m.own (inv.own thread stored)
    · exact inv.own other h
  · intro op tokens h
    rcases m.mem h with same | h
    · obtain ⟨settings, written⟩ := m.upserting op tokens same.symm
      refine ⟨locks_of_write written, ?_⟩
      rintro rfl
      exact lacks_removeToken written
    · exact inv.upserting op tokens h
  · intro op tokens h
    obtain ⟨j, hj⟩ := List.mem_iff_getElem?.mp h
    rcases (m.getElem? here).mp hj with ⟨rfl, same⟩ | ⟨hne, hj⟩
    · obtain ⟨before, rows⟩ := m.caching op tokens same.symm
      rw [before] at stored
      obtain ⟨locks, lacks⟩ := inv.upserting op tokens stored
      refine ⟨locks, lacks, fun row found => ?_⟩
      rw [rows, AList.lookup_insert] at found
      exact (Option.some.inj found).symm
    · obtain ⟨locks, lacks, written⟩ := inv.caching op tokens (List.mem_of_getElem? hj)
      refine ⟨locks, lacks, fun row found => ?_⟩
      rcases m.rows with rows | ⟨op', tokens', before, -, -⟩
      · rw [rows] at found
        exact written row found
      · have idle := alone j _ hne hj (critical_of_locks locks tokens).2
        rw [before] at stored idle
        rw [(critical_of_locks (inv.upserting op' tokens' stored).1 tokens').1] at idle
        cases idle
  · rintro ⟨removal, hremoval, remove⟩ other h adds
    have removing : ∃ thread ∈ s.threads, thread.op = .removeToken userID id := by
      rcases m.mem hremoval with rfl | hremoval
      · exact ⟨thread, stored, m.op.symm.trans remove⟩
      · exact ⟨removal, hremoval, remove⟩
    rcases m.mem h with rfl | h
    · rw [m.op] at adds
      have ended := inv.fresh removing thread stored adds
      rw [m.active] at ended
      cases ended
    · exact inv.fresh removing other h adds

end Moved

theorem Inv.call {s : State} {userID : Int} {id : String} (inv : Inv userID id s) {op : Operation}
    (allowed : FreshToken userID id s (.call op)) :
    Inv userID id { s with threads := s.threads ++ [.called op] } := by
  have old : ∀ {thread : Thread}, thread ∈ s.threads ++ [.called op] →
      thread ∈ s.threads ∨ thread = .called op := by
    intro thread h
    rwa [List.mem_append, List.mem_singleton] at h
  constructor
  · intro j thread hj critical
    by_cases inside : j < s.threads.length
    · rw [List.getElem?_append_left inside] at hj
      exact inv.mutex j thread hj critical
    · have last : thread = .called op := by
        rw [List.getElem?_append_right (Nat.le_of_not_lt inside)] at hj
        exact List.mem_singleton.mp (List.mem_of_getElem? hj)
      rw [last] at critical
      simp [Thread.critical] at critical
  · intro thread h
    rcases old h with h | rfl
    · exact inv.own thread h
    · exact own_of_seen_nil rfl
  · intro op' tokens h
    rcases old h with h | h
    · exact inv.upserting op' tokens h
    · cases h
  · intro op' tokens h
    rcases old h with h | h
    · exact inv.caching op' tokens h
    · cases h
  · rintro ⟨removal, hremoval, remove⟩ thread h adds
    rcases old hremoval with hremoval | rfl
    · rcases old h with h | rfl
      · exact inv.fresh ⟨removal, hremoval, remove⟩ thread h adds
      · exact absurd remove (allowed.1 adds removal hremoval)
    · have remove : op = .removeToken userID id := remove
      rcases old h with h | rfl
      · exact allowed.2 remove thread h adds
      · rw [Thread.op, remove] at adds
        cases adds

/-- Rows may disappear; nothing else is known of the row that was written. -/
theorem Inv.lose {s s' : State} {userID : Int} {id : String} (inv : Inv userID id s)
    (threads : s'.threads = s.threads) (mutex : s'.mutex = s.mutex)
    (rows : ∀ user row, s'.rows.lookup user = some row → s.rows.lookup user = some row) :
    Inv userID id s' := by
  constructor
  · rw [threads, mutex]
    exact inv.mutex
  · rw [threads]
    exact inv.own
  · rw [threads]
    exact inv.upserting
  · rw [threads]
    intro op tokens h
    obtain ⟨locks, lacks, written⟩ := inv.caching op tokens h
    exact ⟨locks, lacks, fun row found => written row (rows op.userID row found)⟩
  · rw [threads]
    exact inv.fresh

theorem lookup_of_erase {rows : AList fun _ : Int => List Token} {userID user : Int}
    {row : List Token} (h : (rows.erase userID).lookup user = some row) :
    rows.lookup user = some row := by
  by_cases same : user = userID
  · rw [same, AList.lookup_erase] at h
    cases h
  · rwa [AList.lookup_erase_ne same] at h

/-! ### After the removal -/

/-- The token is in neither place, and no call that holds the mutex or was made after the
first `n` knows it. -/
structure After (userID : Int) (id : String) (n : Nat) (s : State) : Prop where
  gone : Gone userID id s
  clear : ∀ j thread, s.threads[j]? = some thread → n ≤ j ∨ thread.critical = true →
    Clear userID id thread.seen
  removal : ∃ thread ∈ s.threads, thread.op = .removeToken userID id

theorem After.mono {userID : Int} {id : String} {n m : Nat} {s : State} (h : After userID id n s)
    (le : n ≤ m) : After userID id m s :=
  ⟨h.gone, fun j thread hj later => h.clear j thread hj (later.imp (Nat.le_trans le) fun c => c),
    h.removal⟩

section Moved

variable {s s' : State} {i n : Nat} {thread thread' : Thread} {userID : Int} {id : String}

theorem After.moved (after : After userID id n s) (inv : Inv userID id s)
    (allowed : NoStaleFill userID id s (.run i)) (m : Moved s s' i thread thread')
    (here : s.threads[i]? = some thread) : After userID id n s' := by
  have stored : thread ∈ s.threads := List.mem_of_getElem? here
  have knows : thread.critical = true → Clear userID id thread.seen := fun critical =>
    after.clear i thread here (.inr critical)
  have other : thread.op.adds userID id = false := by
    by_contra adds
    rw [Bool.not_eq_false] at adds
    have ended := inv.fresh after.removal thread stored adds
    rw [m.active] at ended
    cases ended
  refine ⟨⟨?_, ?_⟩, ?_, ?_⟩
  · intro tokens found
    rcases m.rows with rows | ⟨op, written, before, -, rows⟩
    · rw [rows] at found
      exact after.gone.row tokens found
    · rw [rows] at found
      by_cases user : userID = op.userID
      · rw [user, AList.lookup_insert] at found
        injection found with found
        rw [before] at stored knows
        have critical := (critical_of_locks (inv.upserting op written stored).1 written).1
        rw [← found]
        exact knows critical _ List.mem_cons_self user.symm
      · rw [AList.lookup_insert_ne user] at found
        exact after.gone.row tokens found
  · intro tokens found
    rcases m.cache with cache | ⟨setting, known, cache, kind⟩
    · rw [cache] at found
      exact after.gone.cached tokens found
    · rw [cache, State.setCache] at found
      dsimp only at found
      split at found
      · rename_i user
        injection found with found
        rw [← found]
        rcases kind with ⟨op, settings, fills, before⟩ | ⟨op, written, before⟩
        · by_cases locks : op.locks = true
          · have critical : thread.critical = true := by
              simp [before, Thread.critical, Thread.op, Thread.ended, locks]
            exact knows critical setting known user.symm
          · rw [before] at here
            rw [Bool.not_eq_true] at locks
            exact allowed _ here locks user.symm after.gone.row
        · rw [before] at stored
          have locks := (inv.caching op written stored).1
          have critical : thread.critical = true := by
            rw [before]
            exact (critical_of_locks locks written).2
          exact knows critical setting known user.symm
      · exact after.gone.cached tokens found
  · intro j th hj later
    rcases (m.getElem? here).mp hj with ⟨rfl, rfl⟩ | ⟨-, hj⟩
    · refine m.clear userID id after.gone (inv.own thread stored) ?_ other
      rcases later with later | critical
      · exact after.clear j thread here (.inl later)
      · rcases m.enters critical with ⟨before, -⟩ | ⟨seen, -⟩
        · exact knows before
        · rw [seen]
          exact clear_nil userID id
    · exact after.clear j th hj later
  · obtain ⟨removal, hremoval, remove⟩ := after.removal
    obtain ⟨j, hj⟩ := List.mem_iff_getElem?.mp hremoval
    by_cases same : j = i
    · rw [same, here] at hj
      injection hj with hj
      refine ⟨thread', List.mem_of_getElem? ((m.getElem? here).mpr (.inl ⟨rfl, rfl⟩)), ?_⟩
      rw [m.op, hj, remove]
    · exact ⟨removal, List.mem_of_getElem? ((m.getElem? here).mpr (.inr ⟨same, hj⟩)), remove⟩

/-- The step in which a removal writes the cache, after the row. -/
theorem after_removal (inv : Inv userID id s) {tokens : List Token}
    (here : s.threads[i]? = some (.caching (.removeToken userID id) tokens))
    (m : Moved s s' i (.caching (.removeToken userID id) tokens) thread')
    (state : s' = (s.setCache ⟨userID, tokens⟩).setThread i thread')
    (settings : thread' = .returning (.removeToken userID id) [⟨userID, tokens⟩]) :
    After userID id s'.threads.length s' := by
  obtain ⟨locks, lacks, written⟩ := inv.caching _ tokens (List.mem_of_getElem? here)
  have lacks := lacks rfl
  refine ⟨⟨?_, ?_⟩, ?_, ?_⟩
  · rw [state]
    intro row found
    rw [written row found]
    exact lacks
  · rw [state]
    intro cached found
    have found : (if userID = userID then some tokens else s.cache userID) = some cached := found
    rw [if_pos rfl] at found
    injection found with found
    rwa [← found]
  · intro j th hj later
    rcases (m.getElem? here).mp hj with ⟨rfl, rfl⟩ | ⟨hne, hj'⟩
    · rw [settings]
      intro setting hs _
      rw [List.mem_singleton.mp hs]
      exact lacks
    · rcases later with later | critical
      · have bound := (List.getElem?_eq_some_iff.mp hj).1
        exact absurd bound (Nat.not_lt.mpr later)
      · have mine := inv.mutex i _ here (critical_of_locks locks tokens).2
        rw [inv.mutex j th hj' critical] at mine
        exact absurd (Option.some.inj mine) hne
  · exact ⟨thread', List.mem_of_getElem? ((m.getElem? here).mpr (.inl ⟨rfl, rfl⟩)), m.op⟩

/-- A call that has just been made has seen nothing. -/
theorem After.call (after : After userID id n s) (op : Operation) :
    After userID id n { s with threads := s.threads ++ [.called op] } := by
  refine ⟨⟨after.gone.row, after.gone.cached⟩, fun j thread hj later => ?_, ?_⟩
  · by_cases inside : j < s.threads.length
    · rw [List.getElem?_append_left inside] at hj
      exact after.clear j thread hj later
    · rw [List.getElem?_append_right (Nat.le_of_not_lt inside)] at hj
      rw [List.mem_singleton.mp (List.mem_of_getElem? hj)]
      exact clear_nil userID id
  · obtain ⟨removal, hremoval, remove⟩ := after.removal
    exact ⟨removal, List.mem_append_left _ hremoval, remove⟩

/-- What is lost from the table or from the cache does not come back. -/
theorem After.lose (after : After userID id n s) (threads : s'.threads = s.threads)
    (rows : ∀ tokens, s'.rows.lookup userID = some tokens → s.rows.lookup userID = some tokens)
    (cache : ∀ tokens, s'.cache userID = some tokens → s.cache userID = some tokens) :
    After userID id n s' := by
  refine ⟨⟨fun tokens found => after.gone.row tokens (rows tokens found),
    fun tokens found => after.gone.cached tokens (cache tokens found)⟩, ?_, ?_⟩
  · rw [threads]
    exact after.clear
  · rw [threads]
    exact after.removal

end Moved

/-! ### Runs -/

section Step

variable {s s' : State} {n : Nat} {userID : Int} {id : String} {a : Action}

theorem Inv.step (inv : Inv userID id s) (fresh : FreshToken userID id s a)
    (next : step s a = some s') : Inv userID id s' := by
  cases a with
  | call op =>
      injection next with next
      rw [← next]
      exact inv.call fresh
  | run i =>
      obtain ⟨thread, here, moves⟩ := Option.bind_eq_some_iff.mp next
      obtain ⟨thread', m⟩ := runThread_moved moves
      exact inv.moved m here
  | fail i =>
      obtain ⟨thread, here, fails⟩ := Option.bind_eq_some_iff.mp next
      obtain ⟨thread', m⟩ := failThread_moved fails
      exact inv.moved m here
  | evict user =>
      injection next with next
      rw [← next]
      exact inv.lose rfl rfl fun _ _ found => found
  | deleteRow user =>
      injection next with next
      rw [← next]
      exact inv.lose rfl rfl fun _ _ found => lookup_of_erase found

theorem After.step (after : After userID id n s) (inv : Inv userID id s)
    (current : NoStaleFill userID id s a) (next : step s a = some s') : After userID id n s' := by
  cases a with
  | call op =>
      injection next with next
      rw [← next]
      exact after.call op
  | run i =>
      obtain ⟨thread, here, moves⟩ := Option.bind_eq_some_iff.mp next
      obtain ⟨thread', m⟩ := runThread_moved moves
      exact after.moved inv current m here
  | fail i =>
      obtain ⟨thread, here, fails⟩ := Option.bind_eq_some_iff.mp next
      obtain ⟨thread', m⟩ := failThread_moved fails
      refine after.moved inv ?_ m here
      -- no statement can fail while the cache is being filled
      intro failing same
      rw [here] at same
      injection same with same
      rw [← same]
      unfold Thread.Current
      split
      · cases fails
      · trivial
  | evict user =>
      injection next with next
      rw [← next]
      refine after.lose rfl (fun _ found => found) fun tokens found => ?_
      have found : (if userID = user then none else s.cache userID) = some tokens := found
      split at found
      · cases found
      · exact found
  | deleteRow user =>
      injection next with next
      rw [← next]
      exact after.lose rfl (fun _ found => lookup_of_erase found) fun _ found => found

end Step

/-- No step forgets a call. -/
theorem threads_le {s s' : State} {a : Action} (next : step s a = some s') :
    s.threads.length ≤ s'.threads.length := by
  have moved : ∀ {i : Nat} {thread thread' : Thread}, Moved s s' i thread thread' →
      s.threads.length ≤ s'.threads.length := by
    intro i thread thread' m
    rw [m.threads, List.length_set]
  cases a with
  | call op =>
      injection next with next
      rw [← next, List.length_append]
      exact Nat.le_add_right _ _
  | run i =>
      obtain ⟨thread, -, moves⟩ := Option.bind_eq_some_iff.mp next
      obtain ⟨_, m⟩ := runThread_moved moves
      exact moved m
  | fail i =>
      obtain ⟨thread, -, fails⟩ := Option.bind_eq_some_iff.mp next
      obtain ⟨_, m⟩ := failThread_moved fails
      exact moved m
  | evict user | deleteRow user =>
      injection next with next
      rw [← next]

/-- The call has removed the token: row and cache are written. -/
def Thread.Removed (userID : Int) (id : String) (thread : Thread) : Prop :=
  ∃ settings, thread = .returning (.removeToken userID id) settings ∨
    thread = .returned (.removeToken userID id) settings

/-- What a run keeps: once a call has removed the token, it is gone for all later calls. -/
def Revoking (userID : Int) (id : String) (s : State) : Prop :=
  Inv userID id s ∧
    ∀ thread ∈ s.threads, thread.Removed userID id → After userID id s.threads.length s

theorem Moved.removed {s s' : State} {i : Nat} {thread thread' : Thread} {userID : Int}
    {id : String} (m : Moved s s' i thread thread') (here : s.threads[i]? = some thread)
    (inv : Inv userID id s) (removed : thread'.Removed userID id) :
    thread.Removed userID id ∨ After userID id s'.threads.length s' := by
  obtain ⟨settings, returning | returned⟩ := removed
  · rcases m.returning _ settings returning with ⟨tokens, caching, state, known⟩ | ⟨known, none⟩
    · rw [known] at returning
      rw [caching] at here m
      exact .inr (after_removal inv here m state returning)
    · cases none
  · exact .inl ⟨settings, .inl (m.returned _ settings returned)⟩

theorem revoking_step {userID : Int} {id : String} {s s' : State} {a : Action}
    (h : Revoking userID id s) (fresh : FreshToken userID id s a)
    (current : NoStaleFill userID id s a) (next : step s a = some s') :
    Revoking userID id s' := by
  obtain ⟨inv, revoked⟩ := h
  refine ⟨inv.step fresh next, fun thread' h' removed => ?_⟩
  -- either a call had removed the token before, or this step is the one that does
  have before : (∃ thread ∈ s.threads, thread.Removed userID id) ∨
      After userID id s'.threads.length s' := by
    have moved : ∀ {i : Nat} {thread moved : Thread}, s.threads[i]? = some thread →
        Moved s s' i thread moved → (∃ thread ∈ s.threads, thread.Removed userID id) ∨
          After userID id s'.threads.length s' := by
      intro i thread moved here m
      rcases m.mem h' with rfl | h'
      · exact (m.removed here inv removed).imp
          (fun removed => ⟨thread, List.mem_of_getElem? here, removed⟩) fun after => after
      · exact .inl ⟨thread', h', removed⟩
    cases a with
    | call op =>
        injection next with next
        rw [← next] at h'
        rcases List.mem_append.mp h' with h' | h'
        · exact .inl ⟨thread', h', removed⟩
        · rw [List.mem_singleton.mp h'] at removed
          obtain ⟨settings, same | same⟩ := removed
          · cases same
          · cases same
    | run i =>
        obtain ⟨thread, here, moves⟩ := Option.bind_eq_some_iff.mp next
        obtain ⟨_, m⟩ := runThread_moved moves
        exact moved here m
    | fail i =>
        obtain ⟨thread, here, fails⟩ := Option.bind_eq_some_iff.mp next
        obtain ⟨_, m⟩ := failThread_moved fails
        exact moved here m
    | evict user | deleteRow user =>
        injection next with next
        rw [← next] at h'
        exact .inl ⟨thread', h', removed⟩
  rcases before with ⟨thread, stored, removed⟩ | after
  · exact ((revoked thread stored removed).step inv current next).mono (threads_le next)
  · exact after

theorem inv_idle (userID : Int) (id : String) (rows : AList fun _ : Int => List Token)
    (cache : Int → Option (List Token)) : Inv userID id (.idle rows cache) := by
  have none : ∀ {thread : Thread}, thread ∉ (State.idle rows cache).threads := List.not_mem_nil
  constructor
  · intro j thread hj
    exact absurd (List.mem_of_getElem? hj) none
  · exact fun _ h => absurd h none
  · exact fun _ _ h => absurd h none
  · exact fun _ _ h => absurd h none
  · exact fun _ _ h => absurd h none

/-- A removed token is gone for good, in every run in which no reader puts a stale list
into the cache: it is in neither place, and no call made after the removal returned has
come back with it. -/
theorem revocation_permanent {userID : Int} {id : String}
    {rows : AList fun _ : Int => List Token} {cache : Int → Option (List Token)}
    {removed later : State} {i : Nat} {settings : List UserSetting}
    (before : Run step (fun s a => FreshToken userID id s a ∧ NoStaleFill userID id s a)
      (.idle rows cache) removed)
    (returned : removed.threads[i]? = some (.returned (.removeToken userID id) settings))
    (after : Run step (fun s a => FreshToken userID id s a ∧ NoStaleFill userID id s a)
      removed later) :
    (∀ tokens, later.rows.lookup userID = some tokens → Lacks id tokens) ∧
      (∀ tokens, later.cache userID = some tokens → Lacks id tokens) ∧
      ∀ j op settings, removed.threads.length ≤ j →
        later.threads[j]? = some (.returned op settings) → Clear userID id settings := by
  have revoking : Revoking userID id removed := by
    refine before.invariant ⟨inv_idle userID id rows cache, ?_⟩
      fun s s' a h ok next => revoking_step h ok.1 ok.2 next
    exact fun _ h => absurd h List.not_mem_nil
  have gone : After userID id removed.threads.length removed :=
    revoking.2 _ (List.mem_of_getElem? returned) ⟨settings, .inr rfl⟩
  have kept : Inv userID id later ∧ After userID id removed.threads.length later := by
    refine after.invariant (P := fun s => Inv userID id s ∧ After userID id removed.threads.length s)
      ⟨revoking.1, gone⟩ fun s s' a h ok next => ?_
    exact ⟨h.1.step ok.1 next, h.2.step h.1 ok.2 next⟩
  refine ⟨kept.2.gone.row, kept.2.gone.cached, fun j op known made found => ?_⟩
  exact kept.2.clear j _ found (.inl made)

def oneToken : State := .idle (AList.singleton 1 [⟨"t", none, ""⟩]) fun _ => none

def removeAlone : List Action := .call (.removeToken 1 "t") :: List.replicate 9 (.run 0)

def readAfter : List Action := [.call (.getTokens 1), .run 1, .run 1, .run 1]

theorem revocation_permanent_alone : ∃ removed later : State,
    removed.threads = [.returned (.removeToken 1 "t") [⟨1, []⟩]] ∧
    later.threads[1]? = some (.returned (.getTokens 1) [⟨1, []⟩]) ∧
    (∀ tokens, later.rows.lookup 1 = some tokens → Lacks "t" tokens) ∧
    (∀ tokens, later.cache 1 = some tokens → Lacks "t" tokens) ∧
    ∀ j op settings, removed.threads.length ≤ j →
      later.threads[j]? = some (.returned op settings) → Clear 1 "t" settings := by
  let allowed := fun s a => FreshToken 1 "t" s a ∧ NoStaleFill 1 "t" s a
  have removal : (follow step allowed oneToken removeAlone).map State.threads
      = some [.returned (.removeToken 1 "t") [⟨1, []⟩]] := by decide
  have reading : ((follow step allowed oneToken removeAlone).bind fun s =>
      (follow step allowed s readAfter).map fun t => t.threads[1]?)
        = some (some (.returned (.getTokens 1) [⟨1, []⟩])) := by decide
  obtain ⟨removed, first, returned⟩ := Option.map_eq_some_iff.mp removal
  rw [first] at reading
  obtain ⟨later, second, found⟩ := Option.map_eq_some_iff.mp reading
  have last : removed.threads[0]? = some (.returned (.removeToken 1 "t") [⟨1, []⟩]) := by
    rw [returned]
    rfl
  exact ⟨removed, later, returned, found,
    revocation_permanent (run_of_follow first) last (run_of_follow second)⟩

/-- A reader looks for the token and misses the cache, and only then the removal runs. -/
def readAndRemove : List Action :=
  [.call (.getTokens 1), .run 0, .run 0, .run 0, .call (.removeToken 1 "t")]
    ++ List.replicate 9 (.run 1)

/-- The reader fills the cache; then another reader comes, and a token is added. -/
def fillAndAdd : List Action :=
  [.run 0, .call (.getTokens 1), .run 2, .run 2, .run 2, .call (.addToken 1 ⟨"u", none, ""⟩),
    .run 3, .run 3, .run 3]

theorem removed_token_returns : ∃ removed later : State,
    Run step (FreshToken 1 "t") oneToken removed ∧
    removed.threads.length = 2 ∧
    removed.threads[1]? = some (.returned (.removeToken 1 "t") [⟨1, []⟩]) ∧
    Run step (FreshToken 1 "t") removed later ∧
    later.threads[2]? = some (.returned (.getTokens 1) [⟨1, [⟨"t", none, ""⟩]⟩]) ∧
    later.rows.lookup 1 = some [⟨"t", none, ""⟩, ⟨"u", none, ""⟩] := by
  have removal : (follow step (FreshToken 1 "t") oneToken readAndRemove).map
      (fun s => (s.threads.length, s.threads[1]?))
        = some (2, some (.returned (.removeToken 1 "t") [⟨1, []⟩])) := by decide
  have adding : ((follow step (FreshToken 1 "t") oneToken readAndRemove).bind fun s =>
      (follow step (FreshToken 1 "t") s fillAndAdd).map fun t =>
        (t.threads[2]?, t.rows.lookup 1))
        = some (some (.returned (.getTokens 1) [⟨1, [⟨"t", none, ""⟩]⟩]),
          some [⟨"t", none, ""⟩, ⟨"u", none, ""⟩]) := by decide
  obtain ⟨removed, first, returned⟩ := Option.map_eq_some_iff.mp removal
  rw [first] at adding
  obtain ⟨later, second, found⟩ := Option.map_eq_some_iff.mp adding
  injection returned with calls returned
  injection found with read row
  exact ⟨removed, later, run_of_follow first, calls, returned, run_of_follow second, read, row⟩

end Memos.Store.Tokens

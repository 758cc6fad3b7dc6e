/-
When the matcher in memory is the one of the stored list.

A call that has written the database owes the memory a step.  A reader fills the memory
with what it has read under the lock; whoever overtook it has written the database since
then, and cannot write the memory before the reader has let go of the lock.  So readers do
no harm.  A writer that is overtaken by another one does: it puts the older list into the
memory when the newer one is there, and nobody owes the memory anything any more.
-/
import Memos.Proofs.Api.ContentModeration

namespace Memos.Api.BlockedWords

open Runs Debts

/-! ### What a call owes -/

/-- The call has written the database and not yet the memory. -/
def Call.owes : Call → Bool
  | .replaced _ _ | .cleared => true
  | _ => false

def Call.holds : Call → Bool
  | .locked | .read _ => true
  | _ => false

/-- What a call that owes a step is going to put into the memory. -/
def Call.brings : Call → Option InstanceBlockedWordsSetting
  | .replaced setting _ => some setting
  | .cleared => some {}
  | _ => none

def Server.stored (s : Server) : InstanceBlockedWordsSetting := getInstanceBlockedWordsSetting s.row

/-- A writer puts the stored list into the memory, or leaves it to another one that owes
the memory a step. -/
def careful (s : Server) : Action → Bool
  | .run i _ =>
      ((s.calls[i]?.bind Call.brings).all fun setting => decide (setting = s.stored))
        || (s.calls.eraseIdx i).any Call.owes
  | _ => true

def Careful (s : Server) (a : Action) : Prop := careful s a = true

instance (s : Server) (a : Action) : Decidable (Careful s a) :=
  inferInstanceAs (Decidable (careful s a = true))

def Call.ended : Call → Bool
  | .got _ _ | .finished | .failed => true
  | _ => false

theorem Call.owes_of_ended {call : Call} (ended : call.ended = true) : call.owes = false := by
  cases call with
  | got setting matcher => rfl
  | finished => rfl
  | failed => rfl
  | _ => cases ended

/-! ### What holds along the way -/

def BuiltFrom (letters : LowerCase) (setting : InstanceBlockedWordsSetting)
    (matcher : BlockedWordMatcher) : Prop :=
  ∃ order, matcher = newBlockedWordMatcher letters order setting.words

/-- The list is the stored one, or the memory is owed another one. -/
def Current (s : Server) (setting : InstanceBlockedWordsSetting) : Prop :=
  setting = s.stored ∨ Owed Call.owes s.calls

def Carries (letters : LowerCase) : Call → Prop
  | .replaced setting matcher => BuiltFrom letters setting matcher
  | _ => True

structure Inv (letters : LowerCase) (s : Server) : Prop where
  built : ∀ setting matcher, s.cache = some (setting, matcher) → BuiltFrom letters setting matcher
  fresh : ∀ setting matcher, s.cache = some (setting, matcher) → Current s setting
  carried : ∀ call ∈ s.calls, Carries letters call
  reading : ∀ setting, .read setting ∈ s.calls → Current s setting
  held : ∀ i call, s.calls[i]? = some call → call.holds = true → s.lock = some i

section Steps

variable {letters : LowerCase} {s s' : Server} {i : Nat} {call call' : Call}

theorem Inv.begin (row : Option InstanceBlockedWordsSetting) : Inv letters (begin row) := by
  refine ⟨fun _ _ entry => ?_, fun _ _ entry => ?_, fun _ there => ?_, fun _ there => ?_,
    fun _ _ here => ?_⟩
  · cases entry
  · cases entry
  · exact absurd there List.not_mem_nil
  · exact absurd there List.not_mem_nil
  · cases here

/-- Where nobody else is at, and where the lock is. -/
theorem held_set {lock : Option Nat} (inv : Inv letters s)
    (kept : ∀ j, j ≠ i → s.lock = some j → lock = some j)
    (new : call'.holds = true → lock = some i) :
    ∀ j other, (s.calls.set i call')[j]? = some other → other.holds = true → lock = some j := by
  intro j other here holds
  by_cases same : i = j
  · rw [← same] at here ⊢
    have is := List.mem_of_getElem? here
    rw [List.getElem?_set_self'] at here
    obtain ⟨_, -, rfl⟩ := Option.map_eq_some_iff.mp here
    exact new holds
  · rw [List.getElem?_set_ne same] at here
    exact kept j (Ne.symm same) (inv.held j other here holds)

theorem Inv.write (inv : Inv letters s) (here : s.calls[i]? = some call)
    (row : Option InstanceBlockedWordsSetting) (owing : call'.owes = true)
    (carries : Carries letters call') (holds : call'.holds = false) :
    Inv letters { s.setCall i call' with row } := by
  have owed : Owed Call.owes (s.calls.set i call') := .self here owing
  refine ⟨inv.built, fun _ _ _ => .inr owed, forall_set inv.carried carries, fun _ _ => .inr owed, ?_⟩
  refine held_set inv (fun _ _ lock => lock) fun new => ?_
  rw [holds] at new
  cases new

/-- A call goes on that leaves database and memory alone, and may take or release the lock. -/
theorem Inv.move (inv : Inv letters s) (here : s.calls[i]? = some call)
    (owing : call.owes = false) (carries : Carries letters call')
    (reads : ∀ setting, call' = .read setting → setting = s.stored) {lock : Option Nat}
    (kept : ∀ j, j ≠ i → s.lock = some j → lock = some j)
    (new : call'.holds = true → lock = some i) :
    Inv letters { s.setCall i call' with lock } := by
  have current : ∀ setting, Current s setting →
      Current { s.setCall i call' with lock } setting := by
    rintro setting (stored | owed)
    · exact .inl stored
    · refine .inr (owed.set here fun owes => ?_)
      rw [owing] at owes
      cases owes
  refine ⟨inv.built, fun setting matcher entry => current _ (inv.fresh setting matcher entry),
    forall_set inv.carried carries, fun setting there => ?_, held_set inv kept new⟩
  rcases List.mem_or_eq_of_mem_set there with there | same
  · exact current _ (inv.reading setting there)
  · exact .inl (reads setting same.symm)

theorem Inv.quiet (inv : Inv letters s) (here : s.calls[i]? = some call)
    (owing : call.owes = false) (carries : Carries letters call') (ended : call'.holds = false)
    (reads : ∀ setting, call' ≠ .read setting) : Inv letters (s.setCall i call') := by
  refine inv.move here owing carries (fun setting is => absurd is (reads setting)) (fun _ _ lock => lock) ?_
  intro holds
  rw [ended] at holds
  cases holds

/-- The memory gets a list that is the stored one or will be replaced. -/
theorem Inv.fill (inv : Inv letters s) {setting : InstanceBlockedWordsSetting}
    {matcher : BlockedWordMatcher} (current : setting = s.stored ∨ Owed Call.owes (s.calls.set i call'))
    (built : BuiltFrom letters setting matcher) (carries : Carries letters call')
    (ended : call'.holds = false) (free : ∀ j, j ≠ i → s.lock ≠ some j) :
    Inv letters { s.setCall i call' with cache := some (setting, matcher), lock := none } := by
  -- Nobody else is reading, for a reader would hold the lock.
  have alone : ∀ other ∈ s.calls.set i call', other.holds = false := by
    intro other there
    obtain ⟨j, here⟩ := List.getElem?_of_mem there
    cases holds : other.holds with
    | false => rfl
    | true =>
        have kept : ∀ j, j ≠ i → s.lock = some j → s.lock = some j := fun _ _ lock => lock
        have lock := held_set inv kept
          (fun new => absurd (ended.symm.trans new) Bool.false_ne_true) j other here holds
        by_cases same : j = i
        · rw [same, List.getElem?_set_self'] at here
          obtain ⟨_, -, rfl⟩ := Option.map_eq_some_iff.mp here
          exact absurd (ended.symm.trans holds) Bool.false_ne_true
        · exact absurd lock (free j same)
  refine ⟨fun _ _ entry => ?_, fun _ _ entry => ?_, forall_set inv.carried carries, fun _ there => ?_,
    fun j other here holds => ?_⟩
  · injection entry with entry
    injection entry with is is'
    rw [← is, ← is']
    exact built
  · injection entry with entry
    injection entry with is
    rw [← is]
    exact current
  · exact absurd (alone _ there) (fun h => nomatch h)
  · rw [alone other (List.mem_of_getElem? here)] at holds
    cases holds

theorem ifUnlocked_eq_some {next : Server} (h : ifUnlocked s next = some s') :
    s.lock = none ∧ next = s' := by
  unfold ifUnlocked at h
  split at h
  · rename_i free
    injection h with h
    exact ⟨Option.isNone_iff_eq_none.mp free, h⟩
  · cases h

theorem Inv.writeCache (inv : Inv letters s) {order : RangeOrder} (here : s.calls[i]? = some call)
    (ok : Careful s (.run i order)) {setting : InstanceBlockedWordsSetting}
    {matcher : BlockedWordMatcher} (brings : call.brings = some setting)
    (built : BuiltFrom letters setting matcher)
    (h : ifUnlocked s { s.setCall i .finished with cache := some (setting, matcher) } = some s') :
    Inv letters s' := by
  obtain ⟨unlocked, rfl⟩ := ifUnlocked_eq_some h
  have current : setting = s.stored ∨ Owed Call.owes (s.calls.set i .finished) := by
    unfold Careful careful at ok
    dsimp only at ok
    rw [here, Option.bind_some, brings, Option.all_some, Bool.or_eq_true, decide_eq_true_eq,
      List.any_eq_true] at ok
    rcases ok with stored | others
    · exact .inl stored
    · exact .inr (Owed.of_others others)
  have filled := inv.fill current built (by trivial) rfl
    fun j _ held => nomatch unlocked.symm.trans held
  have same : { s.setCall i .finished with cache := some (setting, matcher), lock := none } =
      { s.setCall i .finished with cache := some (setting, matcher) } := by
    rw [← unlocked]
    rfl
  rwa [same] at filled

theorem Inv.look (inv : Inv letters s) (here : s.calls[i]? = some call) (owing : call.owes = false)
    {other : Server} (missing : Inv letters other)
    (h : ifUnlocked s (match s.cache with
      | some (setting, matcher) => s.setCall i (.got setting matcher)
      | none => other) = some s') : Inv letters s' := by
  obtain ⟨-, rfl⟩ := ifUnlocked_eq_some h
  split
  · exact inv.quiet here owing trivial rfl fun _ => nofun
  · exact missing

theorem Inv.runCall (inv : Inv letters s) {order : RangeOrder} (here : s.calls[i]? = some call)
    (ok : Careful s (.run i order)) (h : runCall letters order s i call = some s') :
    Inv letters s' := by
  cases call with
  | replace setting =>
      injection h with h
      exact h ▸ inv.write here (some setting) rfl ⟨order, rfl⟩ rfl
  | clear =>
      injection h with h
      exact h ▸ inv.write here none rfl trivial rfl
  | get => exact inv.look here rfl (inv.quiet here rfl (by trivial) rfl (by nofun)) h
  | replaced setting matcher =>
      exact inv.writeCache here ok rfl (inv.carried _ (List.mem_of_getElem? here)) h
  | cleared => exact inv.writeCache here ok rfl ⟨order, rfl⟩ h
  | missed =>
      have unlocked := (ifUnlocked_eq_some h).1
      refine inv.look here rfl (inv.move here rfl (by trivial) (by nofun) ?_ fun _ => rfl) h
      intro j _ held
      rw [unlocked] at held
      cases held
  | locked =>
      injection h with h
      have lock := inv.held i .locked here rfl
      rw [← h]
      refine inv.move here rfl (by trivial) (fun setting is => ?_) (fun _ _ held => held) fun _ => lock
      injection is with is
      exact is.symm
  | read setting =>
      injection h with h
      have lock := inv.held i (.read setting) here rfl
      rw [← h]
      refine inv.fill ?_ ⟨order, rfl⟩ trivial rfl fun j other held => ?_
      · rcases inv.reading setting (List.mem_of_getElem? here) with stored | owed
        · exact .inl stored
        · exact .inr (owed.set here nofun)
      · rw [lock] at held
        injection held with held
        exact other held.symm
  | got setting matcher => cases h
  | finished => cases h
  | failed => cases h

theorem Inv.failCall (inv : Inv letters s) (here : s.calls[i]? = some call)
    (h : failCall s i call = some s') : Inv letters s' := by
  cases call with
  | replace setting | clear =>
      injection h with h
      exact h ▸ inv.quiet here rfl (by trivial) rfl (by nofun)
  | locked =>
      injection h with h
      have lock := inv.held i .locked here rfl
      rw [← h]
      refine inv.move here rfl (by trivial) (by nofun) (fun j other held => ?_) (by nofun)
      rw [lock] at held
      injection held with held
      exact absurd held.symm other
  | get => cases h
  | replaced setting matcher => cases h
  | cleared => cases h
  | missed => cases h
  | read setting => cases h
  | got setting matcher => cases h
  | finished => cases h
  | failed => cases h

theorem Inv.request (inv : Inv letters s) (request : call.isRequest = true) :
    Inv letters { s with calls := s.calls ++ [call] } := by
  have quiet : Carries letters call ∧ call.holds = false := by
    cases call with
    | replace setting => exact ⟨trivial, rfl⟩
    | clear => exact ⟨trivial, rfl⟩
    | get => exact ⟨trivial, rfl⟩
    | _ => cases request
  have current : ∀ setting, Current s setting →
      Current { s with calls := s.calls ++ [call] } setting := by
    rintro setting (stored | owed)
    · exact .inl stored
    · exact .inr (owed.append _)
  refine ⟨inv.built, fun setting matcher entry => current _ (inv.fresh setting matcher entry),
    fun other there => ?_, fun setting there => ?_, fun j other here holds => ?_⟩
  · rcases List.mem_append.mp there with there | there
    · exact inv.carried other there
    · rw [List.mem_singleton.mp there]
      exact quiet.1
  · rcases List.mem_append.mp there with there | there
    · exact current _ (inv.reading setting there)
    · rw [← List.mem_singleton.mp there] at request
      cases request
  · have there := List.mem_of_getElem? here
    rw [List.getElem?_append] at here
    split at here
    · exact inv.held j other here holds
    · have is := List.mem_singleton.mp (List.mem_of_getElem? here)
      rw [is, quiet.2] at holds
      cases holds

theorem Inv.step (inv : Inv letters s) {a : Action} (ok : Careful s a)
    (h : step letters s a = some s') : Inv letters s' := by
  cases a with
  | call call =>
      unfold BlockedWords.step at h
      dsimp only at h
      split at h
      · rename_i request
        injection h with h
        exact h ▸ inv.request request
      · cases h
  | run i order =>
      obtain ⟨call, here, h⟩ := Option.bind_eq_some_iff.mp h
      exact inv.runCall here ok h
  | fail i =>
      obtain ⟨call, here, h⟩ := Option.bind_eq_some_iff.mp h
      exact inv.failCall here h

end Steps

/-! ### The result -/

/-- **When the matcher is the one of the stored list.**

Start the server on any row and take any run in which a writer puts the stored list into
the memory, or is followed there by another writer that has written the database already.
Whenever all calls are over there is nothing in memory, or the stored list and a matcher
built from it. -/
theorem matcher_of_stored (letters : LowerCase) (row : Option InstanceBlockedWordsSetting) {t : Server}
    (run : Run (step letters) Careful (begin row) t) (ended : ∀ call ∈ t.calls, call.ended = true) :
    t.cache = none ∨ ∃ order,
      t.cache = some (t.stored, newBlockedWordMatcher letters order t.stored.words) := by
  have inv : Inv letters t :=
    run.invariant (Inv.begin row) fun _ _ _ inv ok next => inv.step ok next
  cases cache : t.cache with
  | none => exact .inl rfl
  | some entry =>
      obtain ⟨setting, matcher⟩ := entry
      obtain ⟨order, built⟩ := inv.built setting matcher cache
      have stored : setting = t.stored := by
        rcases inv.fresh setting matcher cache with stored | owed
        · exact stored
        · exact absurd owed (not_owed fun call there => call.owes_of_ended (ended call there))
      refine .inr ⟨order, ?_⟩
      rw [built, stored]

/-! ### Two administrators -/

def wordList (word : List Char) : InstanceBlockedWordsSetting := { words := [word] }

def oneAfterTheOther : List Action :=
  [.call (.replace (wordList ['c', 'a', 't'])), .call (.replace (wordList ['d', 'o', 'g'])), .call .get,
    .run 0 insertionOrder, .run 1 insertionOrder, .run 0 insertionOrder, .run 1 insertionOrder,
    .run 2 insertionOrder]

theorem matcher_of_stored_two : ∃ t,
    follow (step latinLetters) Careful (begin none) oneAfterTheOther = some t ∧
    t.stored = wordList ['d', 'o', 'g'] ∧
    (t.cache = none ∨ ∃ order,
      t.cache = some (t.stored, newBlockedWordMatcher latinLetters order t.stored.words)) := by
  obtain ⟨t, follows, ended, stored⟩ : ∃ t,
      follow (step latinLetters) Careful (begin none) oneAfterTheOther = some t ∧
      t.calls.all Call.ended = true ∧ t.stored = wordList ['d', 'o', 'g'] :=
    ⟨_, rfl, rfl, rfl⟩
  exact ⟨t, follows, stored,
    matcher_of_stored latinLetters none (run_of_follow follows) (List.all_eq_true.mp ended)⟩

/-- The first writer of the database is the last writer of the memory. -/
def overtaken : List Action :=
  [.call (.replace (wordList ['c', 'a', 't'])), .call (.replace (wordList ['d', 'o', 'g'])),
    .run 0 insertionOrder, .run 1 insertionOrder, .run 1 insertionOrder, .run 0 insertionOrder]

/-- All calls are over, the second list is stored, and the first one is enforced. -/
theorem first_list_enforced : ∃ t setting matcher,
    Run (step latinLetters) (fun _ _ => True) (begin none) t ∧
    (∀ call ∈ t.calls, call.ended = true) ∧
    t.stored.words = [['d', 'o', 'g']] ∧ t.cache = some (setting, matcher) ∧
    matcher.matches latinLetters ['d', 'o', 'g'] = false ∧
    matcher.matches latinLetters ['c', 'a', 't'] = true := by
  obtain ⟨t, setting, matcher, follows, ended, rest⟩ : ∃ t setting matcher,
      follow (step latinLetters) (fun _ _ => True) (begin none) overtaken = some t ∧
      t.calls.all Call.ended = true ∧
      t.stored.words = [['d', 'o', 'g']] ∧ t.cache = some (setting, matcher) ∧
      matcher.matches latinLetters ['d', 'o', 'g'] = false ∧
      matcher.matches latinLetters ['c', 'a', 't'] = true :=
    ⟨_, _, _, rfl, rfl, rfl, rfl, by decide, by decide⟩
  exact ⟨t, setting, matcher, run_of_follow follows, List.all_eq_true.mp ended, rest⟩

end Memos.Api.BlockedWords

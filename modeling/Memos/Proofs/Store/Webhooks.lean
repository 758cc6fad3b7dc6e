/-
When every change of a user's webhooks lasts.

An operation that writes the row while it still holds the list it read makes its change on
top of all that were written before; the order in which the rows are written is the order
of the operations.  An operation that writes what it has made of an older list takes back
what was written in between.

The cache is another matter.  A call that has written the row owes the cache its list, and
an update that has changed the list in the cache owes it the row.  An update that fails
after it has changed that list never pays.
-/
import Memos.Store.Webhooks
import Mathlib.Data.List.Perm.Basic

namespace Memos.Store.Webhooks

open Runs Debts

/-! ### Conditions -/

def Call.caches : Call → Bool
  | .caching _ _ => true
  | _ => false

/-- The call has changed the object or is to write it, and had read the stored list in it. -/
def Call.changes (ref : Nat) (stored : List Webhook) : Call → Bool
  | .made _ read r | .upserting _ read r _ => decide (r = ref) && decide (read = stored)
  | _ => false

def Call.owes (ref : Nat) (stored : List Webhook) (call : Call) : Bool :=
  call.caches || call.changes ref stored

/-- The list is the stored one, or another call will put its own into the cache. -/
def settled (s : State) (i : Nat) (list : List Webhook) : Bool :=
  decide (list = s.stored) || (s.calls.eraseIdx i).any Call.caches

/-- Nobody writes over what he has not read, and nobody leaves a wrong list in the cache. -/
def careful (s : State) : Action → Bool
  | .run i =>
      match s.calls[i]? with
      | some (.made op read ref) => decide (s.object ref = op.apply read)
      | some (.upserting _ read _ _) => decide (s.stored = read)
      | some (.filling _ ref (_ + 1)) =>
          settled s i (s.object ref) || s.calls.any (Call.changes ref s.stored)
      | some (.caching _ list) => settled s i list
      | _ => true
  | .fail i =>
      match s.calls[i]? with
      | some (.made _ read ref) | some (.upserting _ read ref _) =>
          decide (s.cache ≠ some ref) || decide (s.object ref = read)
      | _ => true
  | _ => true

def Careful (s : State) (a : Action) : Prop := careful s a = true

instance (s : State) (a : Action) : Decidable (Careful s a) :=
  inferInstanceAs (Decidable (careful s a = true))

/-! ### What holds along the way -/

/-- The operation has written the row: it is acknowledged, or is about to be. -/
def Call.written : Call → Option Operation
  | .caching op _ | .acknowledged op => some op
  | _ => none

/-- The list about to be written is what the operation makes of the list it has read. -/
def Call.Right : Call → Prop
  | .upserting op read _ list => list = op.apply read
  | _ => True

/-- The object a call is to put into the cache is there. -/
def Call.Bounded (size : Nat) : Call → Prop
  | .filling _ ref _ => ref < size
  | _ => True

def Owed (s : State) (ref : Nat) : Prop := ∃ call ∈ s.calls, call.owes ref s.stored = true

structure Inv (initial : List Webhook) (s : State) : Prop where
  /-- The row is the work of those who have written it, one after the other. -/
  log : ∃ ops : List Operation, ops.Perm (s.calls.filterMap Call.written) ∧
    s.stored = ops.foldl Operation.apply initial
  right : ∀ call ∈ s.calls, call.Right
  filled : ∀ call ∈ s.calls, call.Bounded s.objects.length
  bounded : ∀ ref, s.cache = some ref → ref < s.objects.length
  fresh : ∀ ref, s.cache = some ref → s.object ref = s.stored ∨ Owed s ref

section Calls

variable {calls : List Call} {i : Nat} {call c : Call}

theorem written_perm (here : calls[i]? = some call) : (calls.filterMap Call.written).Perm
    (call.written.toList ++ (calls.eraseIdx i).filterMap Call.written) := by
  obtain ⟨there, rfl⟩ := List.getElem?_eq_some_iff.mp here
  refine ((List.getElem_cons_eraseIdx_perm there).symm.filterMap Call.written).trans ?_
  rw [List.filterMap_cons]
  cases calls[i].written with
  | none => exact .refl _
  | some op => exact .refl _

theorem written_set_perm (here : calls[i]? = some call) :
    ((calls.set i c).filterMap Call.written).Perm
      (c.written.toList ++ (calls.eraseIdx i).filterMap Call.written) := by
  obtain ⟨there, -⟩ := List.getElem?_eq_some_iff.mp here
  refine ((List.set_perm_cons_eraseIdx there c).filterMap Call.written).trans ?_
  rw [List.filterMap_cons]
  cases c.written with
  | none => exact .refl _
  | some op => exact .refl _

theorem written_same (here : calls[i]? = some call) (same : c.written = call.written) :
    ((calls.set i c).filterMap Call.written).Perm (calls.filterMap Call.written) := by
  refine (written_set_perm here).trans ?_
  rw [same]
  exact (written_perm here).symm

end Calls

/-! ### Objects -/

section Objects

variable {s : State} {ref : Nat}

theorem object_length (list : List Webhook) : (s.new list).object s.objects.length = list := by
  show (s.objects ++ [list])[s.objects.length]?.getD [] = _
  rw [List.getElem?_concat_length]
  rfl

theorem Call.Bounded.mono {call : Call} {size size' : Nat} (h : call.Bounded size)
    (le : size ≤ size') : call.Bounded size' := by
  cases call with
  | filling op ref fills => exact Nat.lt_of_lt_of_le h le
  | _ => trivial

end Objects

/-! ### Steps -/

section Steps

variable {initial : List Webhook} {s s' : State} {i : Nat} {call call' : Call}

/-- A call goes on, and leaves the row and the entry alone.  The object in the cache is as
stored or owed by this call, if it was so before. -/
theorem Inv.move (inv : Inv initial s) (here : s.calls[i]? = some call)
    (calls : s'.calls = s.calls.set i call') (row : s'.row = s.row) (cache : s'.cache = s.cache)
    (size : s.objects.length ≤ s'.objects.length) (written : call'.written = call.written)
    (right : call'.Right) (filled : call'.Bounded s'.objects.length)
    (kept : ∀ ref, s.cache = some ref → s.object ref = s.stored ∨ call.owes ref s.stored = true →
      s'.object ref = s.stored ∨ call'.owes ref s.stored = true) : Inv initial s' := by
  have stored : s'.stored = s.stored := congrArg (Option.getD · []) row
  obtain ⟨ops, done, made⟩ := inv.log
  refine ⟨⟨ops, ?_, stored.trans made⟩, ?_, ?_, fun ref cached => ?_, fun ref cached => ?_⟩
  · rw [calls]
    exact done.trans (written_same here written).symm
  · rw [calls]
    exact forall_set inv.right right
  · rw [calls]
    exact forall_set (fun call there => (inv.filled call there).mono size) filled
  · rw [cache] at cached
    exact Nat.lt_of_lt_of_le (inv.bounded ref cached) size
  · rw [cache] at cached
    have own : s.object ref = s.stored ∨ call.owes ref s.stored = true →
        s'.object ref = s'.stored ∨ Owed s' ref := by
      intro before
      unfold Owed
      rw [stored, calls]
      rcases kept ref cached before with current | owes
      · exact .inl current
      · exact .inr (Debts.Owed.self here owes)
    rcases inv.fresh ref cached with current | owed
    · exact own (.inl current)
    · rcases Debts.Owed.cases owed here with owes | others
      · exact own (.inr owes)
      · unfold Owed
        rw [stored, calls]
        exact .inr (Debts.Owed.of_others others)

/-- A call that owes nothing goes on, perhaps with a new object. -/
theorem Inv.plain (inv : Inv initial s) (here : s.calls[i]? = some call)
    (calls : s'.calls = s.calls.set i call') (row : s'.row = s.row) (cache : s'.cache = s.cache)
    (objects : s'.objects = s.objects ∨ ∃ list, s'.objects = s.objects ++ [list])
    (written : call'.written = call.written) (right : call'.Right)
    (filled : call'.Bounded s'.objects.length)
    (owes : ∀ ref, call.owes ref s.stored = true → call'.owes ref s.stored = true) :
    Inv initial s' := by
  have size : s.objects.length ≤ s'.objects.length := by
    rcases objects with same | ⟨list, more⟩
    · exact Nat.le_of_eq (congrArg List.length same.symm)
    · rw [more, List.length_append]
      exact Nat.le_add_right _ _
  refine inv.move here calls row cache size written right filled fun ref cached before => ?_
  rcases before with current | owed
  · left
    rw [← current]
    rcases objects with same | ⟨list, more⟩
    · unfold State.object
      rw [same]
    · unfold State.object
      rw [more, List.getElem?_append_left (inv.bounded ref cached)]
  · exact .inr (owes ref owed)

theorem Inv.make (inv : Inv initial s) {op : Operation} {ref : Nat}
    (here : s.calls[i]? = some (.got op ref)) : Inv initial (make s i ref op) := by
  cases op with
  | getUserWebhooks | listUserSettings =>
      exact inv.plain here rfl rfl rfl (.inl rfl) rfl trivial trivial fun _ owes => owes
  | addUserWebhook webhook | removeUserWebhook webhookID =>
      exact inv.plain here rfl rfl rfl (.inr ⟨_, rfl⟩) rfl trivial trivial
        fun _ owes => absurd owes Bool.false_ne_true
  | updateUserWebhook webhook =>
      refine inv.move here rfl rfl rfl (Nat.le_of_eq (List.length_set).symm) rfl trivial trivial
        fun other cached before => ?_
      rcases before with current | owes
      · by_cases same : ref = other
        · right
          show (decide (ref = other) && decide (s.object ref = s.stored)) = true
          rw [same, current, decide_eq_true rfl, decide_eq_true rfl, Bool.and_self]
        · left
          show (s.objects.set ref _)[other]?.getD [] = s.stored
          rw [List.getElem?_set_ne same]
          exact current
      · cases owes

theorem Inv.fill (inv : Inv initial s) {op : Operation} {ref fills : Nat}
    (here : s.calls[i]? = some (.filling op ref (fills + 1))) (ok : Careful s (.run i)) :
    Inv initial { s.setCall i (.filling op ref fills) with cache := some ref } := by
  have there : ref < s.objects.length := inv.filled _ (List.mem_of_getElem? here)
  obtain ⟨ops, done, made⟩ := inv.log
  unfold Careful careful at ok
  dsimp only at ok
  rw [here] at ok
  have same := written_same (c := .filling op ref fills) here rfl
  refine ⟨⟨ops, done.trans same.symm, made⟩, forall_set inv.right trivial, forall_set inv.filled there,
    fun other cached => ?_, fun other cached => ?_⟩
  · injection cached with cached
    rw [← cached]
    exact there
  · injection cached with cached
    rw [← cached]
    rw [Bool.or_eq_true, settled, Bool.or_eq_true, decide_eq_true_eq, List.any_eq_true,
      List.any_eq_true] at ok
    rcases ok with (current | caches) | changes
    · exact .inl current
    · obtain ⟨call, among, caches⟩ :
          Debts.Owed Call.caches (s.calls.set i (.filling op ref fills)) := .of_others caches
      refine .inr ⟨call, among, ?_⟩
      rw [Call.owes, caches, Bool.true_or]
    · rcases Debts.Owed.cases changes here with changes | others
      · cases changes
      · obtain ⟨call, among, changes⟩ : Debts.Owed (Call.changes ref s.stored)
            (s.calls.set i (.filling op ref fills)) := .of_others others
        refine .inr ⟨call, among, ?_⟩
        show (call.caches || call.changes ref s.stored) = true
        rw [changes, Bool.or_true]

theorem Inv.upsert (inv : Inv initial s) {op : Operation} {read list : List Webhook} {ref : Nat}
    (here : s.calls[i]? = some (.upserting op read ref list)) (ok : Careful s (.run i)) :
    Inv initial { s.setCall i (.caching op list) with row := some list } := by
  have right : list = op.apply read := inv.right _ (List.mem_of_getElem? here)
  obtain ⟨ops, done, made⟩ := inv.log
  unfold Careful careful at ok
  dsimp only at ok
  rw [here] at ok
  have latest : s.stored = read := decide_eq_true_eq.mp ok
  refine ⟨⟨ops ++ [op], ?_, ?_⟩, forall_set inv.right trivial, forall_set inv.filled trivial, inv.bounded,
    fun other cached => ?_⟩
  · have now := written_set_perm (c := .caching op list) here
    refine List.perm_append_comm.trans ((List.Perm.cons op ?_).trans now.symm)
    exact done.trans (written_perm here)
  · show list = _
    rw [List.foldl_append, ← made, latest, right]
    rfl
  · exact .inr (Debts.Owed.self here rfl)

theorem Inv.cached (inv : Inv initial s) {op : Operation} {list : List Webhook}
    (here : s.calls[i]? = some (.caching op list)) (ok : Careful s (.run i)) :
    Inv initial { (s.setCall i (.acknowledged op)).new list with
      cache := some s.objects.length } := by
  obtain ⟨ops, done, made⟩ := inv.log
  unfold Careful careful at ok
  dsimp only at ok
  rw [here] at ok
  have size : s.objects.length < (s.objects ++ [list]).length := by
    rw [List.length_append]
    exact Nat.lt_succ_self _
  have ok : settled s i list = true := ok
  have same := written_same (c := .acknowledged op) here rfl
  refine ⟨⟨ops, done.trans same.symm, made⟩, forall_set inv.right trivial,
    forall_set (fun call there => (inv.filled call there).mono (Nat.le_of_lt size)) trivial,
    fun other entry => ?_, fun other entry => ?_⟩
  · injection entry with entry
    rw [← entry]
    exact size
  · injection entry with entry
    rw [settled, Bool.or_eq_true, decide_eq_true_eq, List.any_eq_true] at ok
    rcases ok with current | caches
    · left
      rw [← entry]
      exact (object_length (s := s) list).trans current
    · obtain ⟨call, among, caches⟩ : Debts.Owed Call.caches (s.calls.set i (.acknowledged op)) :=
        .of_others caches
      refine .inr ⟨call, among, ?_⟩
      rw [Call.owes, caches, Bool.true_or]

theorem Inv.runCall (inv : Inv initial s) (here : s.calls[i]? = some call)
    (ok : Careful s (.run i)) (h : runCall s i call = some s') : Inv initial s' := by
  cases call with
  | called op =>
      have asked : ∀ call', call'.written = none → call'.Right → call'.Bounded s.objects.length →
          Inv initial (s.setCall i call') :=
        fun call' written right filled => inv.plain here rfl rfl rfl (.inl rfl) written right filled
          fun _ owes => absurd owes Bool.false_ne_true
      cases op with
      | listUserSettings =>
          injection h with h
          exact h ▸ asked _ rfl trivial trivial
      | _ =>
          unfold Webhooks.runCall at h
          dsimp only at h
          split at h
          · injection h with h
            exact h ▸ asked _ rfl trivial trivial
          · injection h with h
            exact h ▸ asked _ rfl trivial trivial
  | missed op =>
      unfold Webhooks.runCall at h
      dsimp only at h
      split at h
      · rename_i list _
        injection h with h
        rw [← h]
        refine inv.plain here rfl rfl rfl (.inr ⟨list, rfl⟩) rfl trivial ?_ fun _ owes =>
          absurd owes Bool.false_ne_true
        show s.objects.length < (s.objects ++ [list]).length
        rw [List.length_append]
        exact Nat.lt_succ_self _
      · injection h with h
        rw [← h]
        exact inv.plain here rfl rfl rfl (.inr ⟨[], rfl⟩) rfl trivial trivial fun _ owes =>
          absurd owes Bool.false_ne_true
  | filling op ref fills =>
      cases fills with
      | zero =>
          injection h with h
          rw [← h]
          exact inv.plain here rfl rfl rfl (.inl rfl) rfl trivial trivial fun _ owes =>
            absurd owes Bool.false_ne_true
      | succ fills =>
          injection h with h
          exact h ▸ inv.fill here ok
  | got op ref =>
      injection h with h
      exact h ▸ inv.make here
  | made op read ref =>
      injection h with h
      rw [← h]
      unfold Careful careful at ok
      dsimp only at ok
      rw [here] at ok
      have right : s.object ref = op.apply read := of_decide_eq_true ok
      exact inv.plain here rfl rfl rfl (.inl rfl) rfl right trivial fun _ owes => owes
  | upserting op read ref list =>
      injection h with h
      exact h ▸ inv.upsert here ok
  | caching op list =>
      injection h with h
      exact h ▸ inv.cached here ok
  | answered op list => cases h
  | acknowledged op => cases h
  | failed op => cases h

/-- A call that ends with an error has not spoilt the list in the cache. -/
theorem Inv.failed (inv : Inv initial s) {op : Operation} (here : s.calls[i]? = some call)
    (written : call.written = none)
    (unspoilt : ∀ ref, s.cache = some ref → call.owes ref s.stored = true →
      s.object ref = s.stored) : Inv initial (s.setCall i (.failed op)) := by
  refine inv.move here rfl rfl rfl (Nat.le_refl _) written.symm trivial trivial
    fun ref cached before => .inl ?_
  rcases before with current | owes
  · exact current
  · exact unspoilt ref cached owes

/-- What the condition on a failing call says. -/
theorem unspoilt_of_careful {read : List Webhook} {own ref : Nat} (cached : s.cache = some ref)
    (ok : (decide (s.cache ≠ some own) || decide (s.object own = read)) = true)
    (changes : (decide (own = ref) && decide (read = s.stored)) = true) :
    s.object ref = s.stored := by
  rw [Bool.and_eq_true, decide_eq_true_eq, decide_eq_true_eq] at changes
  obtain ⟨rfl, rfl⟩ := changes
  rw [Bool.or_eq_true, decide_eq_true_eq, decide_eq_true_eq] at ok
  rcases ok with elsewhere | same
  · exact absurd cached elsewhere
  · exact same

theorem Inv.failCall (inv : Inv initial s) (here : s.calls[i]? = some call)
    (ok : Careful s (.fail i)) (h : failCall s i call = some s') : Inv initial s' := by
  unfold Careful careful at ok
  dsimp only at ok
  rw [here] at ok
  cases call with
  | missed op =>
      injection h with h
      exact h ▸ inv.failed here rfl fun _ _ owes => absurd owes Bool.false_ne_true
  | made op read ref | upserting op read ref list =>
      injection h with h
      exact h ▸ inv.failed here rfl fun _ cached changes => unspoilt_of_careful cached ok changes
  | called op => cases h
  | filling op ref fills => cases h
  | got op ref => cases h
  | caching op list => cases h
  | answered op list => cases h
  | acknowledged op => cases h
  | failed op => cases h

theorem Inv.step (inv : Inv initial s) {a : Action} (ok : Careful s a) (h : step s a = some s') :
    Inv initial s' := by
  cases a with
  | call op =>
      injection h with h
      rw [← h]
      obtain ⟨ops, done, made⟩ := inv.log
      refine ⟨⟨ops, ?_, made⟩, ?_, ?_, inv.bounded, fun ref cached => ?_⟩
      · show ops.Perm ((s.calls ++ [Call.called op]).filterMap Call.written)
        rw [List.filterMap_append]
        exact done.trans (List.Perm.of_eq (List.append_nil _).symm)
      · exact List.forall_mem_append.mpr ⟨inv.right, List.forall_mem_singleton.mpr trivial⟩
      · exact List.forall_mem_append.mpr ⟨inv.filled, List.forall_mem_singleton.mpr trivial⟩
      · rcases inv.fresh ref cached with current | ⟨call, there, owes⟩
        · exact .inl current
        · exact .inr ⟨call, List.mem_append_left _ there, owes⟩
  | run i =>
      obtain ⟨call, here, h⟩ := Option.bind_eq_some_iff.mp h
      exact inv.runCall here ok h
  | fail i =>
      obtain ⟨call, here, h⟩ := Option.bind_eq_some_iff.mp h
      exact inv.failCall here ok h
  | evict =>
      injection h with h
      rw [← h]
      exact ⟨inv.log, inv.right, inv.filled, (fun _ h => nomatch h), fun _ h => nomatch h⟩

end Steps

/-! ### The result -/

/-- The call is between its new list and its end. -/
def Call.changing : Call → Bool
  | .made _ _ _ | .upserting _ _ _ _ | .caching _ _ => true
  | _ => false

theorem changing_of_owes {call : Call} {ref : Nat} {stored : List Webhook}
    (owes : call.owes ref stored = true) : call.changing = true := by
  cases call with
  | made op read ref => rfl
  | upserting op read ref list => rfl
  | caching op list => rfl
  | _ => cases owes

/-- **When every change of the webhooks lasts.**

Start with no call on its way and nothing wrong in the cache.  Take any run in which an
operation writes the row only while the list it has read is the stored one, having made
its own list without another update changing it on the way; in which a list goes into the
cache only if it is the stored one or another call will still mend the entry; and in which
an update that has changed the list in the cache does not fail.

At any time the stored list is what the operations that have written it make of the first
list, one after the other, and all that were acknowledged are among them.  And unless an
operation is between its new list and its end, `GetUserWebhooks` returns the stored list:
nothing of an operation that has failed is in it. -/
theorem changes_kept {s t : State} (idle : s.calls = [])
    (bounded : ∀ ref, s.cache = some ref → ref < s.objects.length)
    (fresh : s.visible = s.stored) (run : Run step Careful s t) :
    (∃ ops : List Operation, ops.Perm (t.calls.filterMap Call.written) ∧
      t.stored = ops.foldl Operation.apply s.stored) ∧
    ((∀ call ∈ t.calls, call.changing = false) → t.visible = t.stored) := by
  have start : Inv s.stored s := by
    refine ⟨⟨[], ?_, rfl⟩, ?_, ?_, bounded, fun ref cached => ?_⟩
    · rw [idle]
      exact .nil
    · rw [idle]
      exact List.forall_mem_nil _
    · rw [idle]
      exact List.forall_mem_nil _
    · left
      unfold State.visible at fresh
      rw [cached] at fresh
      exact fresh
  have inv : Inv s.stored t := run.invariant start fun _ _ _ inv ok next => inv.step ok next
  refine ⟨inv.log, fun quiet => ?_⟩
  unfold State.visible
  split
  · rename_i ref cached
    rcases inv.fresh ref cached with current | ⟨call, there, owes⟩
    · exact current
    · have busy := changing_of_owes owes
      rw [quiet call there] at busy
      cases busy
  · rfl

/-! ### Three operations -/

def blog : Webhook := { id := "a", title := "Blog", url := "https://blog", signingSecret := "s" }

def chat : Webhook := { id := "b", title := "Chat", url := "https://chat", signingSecret := "s" }

def oneWebhook : State where
  row := some [blog]
  objects := []
  cache := none
  calls := []

/-- An update that waits for the other operation, and one that fails before it queries. -/
def oneByOne : List Action :=
  [.call (.addUserWebhook chat), .run 0, .run 0, .run 0, .run 0, .run 0, .run 0, .run 0, .run 0,
    .run 0, .call (.updateUserWebhook { blog with title := "Weblog" }), .run 1, .run 1, .run 1,
    .run 1, .run 1, .evict, .call (.removeUserWebhook "a"), .run 2, .fail 2]

theorem changes_kept_one_by_one : ∃ t, follow step Careful oneWebhook oneByOne = some t ∧
    t.stored = [{ blog with title := "Weblog" }, chat] ∧
    (∃ ops : List Operation, ops.Perm (t.calls.filterMap Call.written) ∧
      t.stored = ops.foldl Operation.apply oneWebhook.stored) ∧
    t.visible = t.stored := by
  obtain ⟨t, follows, stored, quiet⟩ : ∃ t, follow step Careful oneWebhook oneByOne = some t ∧
      t.stored = [{ blog with title := "Weblog" }, chat] ∧
      t.calls.all (fun call => !call.changing) = true := ⟨_, rfl, rfl, rfl⟩
  obtain ⟨log, visible⟩ :=
    changes_kept (s := oneWebhook) rfl (fun _ h => nomatch h) rfl (run_of_follow follows)
  refine ⟨t, follows, stored, log, visible fun call there => ?_⟩
  exact Bool.not_eq_true' _ ▸ List.all_eq_true.mp quiet call there

def bothAdd : List Action :=
  [.call (.addUserWebhook chat), .call (.addUserWebhook { chat with id := "c" }), .run 0, .run 0,
    .run 0, .run 0, .run 0, .run 1, .run 0, .run 1, .run 0, .run 0, .run 0, .run 1, .run 1, .run 1]

def failedUpdate : List Action :=
  [.call .getUserWebhooks, .run 0, .run 0, .run 0, .run 0, .run 0, .run 0,
    .call (.updateUserWebhook { blog with url := "https://elsewhere" }), .run 1, .run 1, .run 1,
    .fail 1]

/-- An acknowledged webhook is not stored; and an update that has returned an error is what
`GetUserWebhooks` returns. -/
theorem change_lost :
    (∃ t, follow step (fun _ _ => True) oneWebhook bothAdd = some t ∧
      t.calls = [.acknowledged (.addUserWebhook chat),
        .acknowledged (.addUserWebhook { chat with id := "c" })] ∧
      t.stored = [blog, { chat with id := "c" }]) ∧
    ∃ t, follow step (fun _ _ => True) oneWebhook failedUpdate = some t ∧
      t.calls = [.answered .getUserWebhooks [blog],
        .failed (.updateUserWebhook { blog with url := "https://elsewhere" })] ∧
      t.stored = [blog] ∧ t.visible = [{ blog with url := "https://elsewhere" }] :=
  ⟨⟨_, rfl, rfl, rfl⟩, ⟨_, rfl, rfl, rfl, rfl⟩⟩

end Memos.Store.Webhooks

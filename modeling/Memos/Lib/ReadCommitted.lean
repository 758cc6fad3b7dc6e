/-
Two transactions at READ COMMITTED.

A transaction is a script: queries, each of which may decide how to go on, and at the end
one write.  A query sees the store as it was last committed when the query starts, and
takes no lock.  A write locks the row it is for until the transaction ends, waits while
the other transaction holds that lock, and becomes visible when its transaction commits.

A schedule says which of the two takes its next step.  The main result reduces every
schedule in which both commit to one order of commits: the first transaction made all
its queries on the initial store, and the second made each of its queries either there
or on the store the first one left.  Nothing more is true at this isolation level, and
nothing more is needed to see what a guard made of plain queries is worth.
-/
import Mathlib.Tactic.Common

namespace ReadCommitted

/-! ### Scripts -/

inductive Script (σ ε α : Type) where
  | done (a : α)
  | fail (err : ε)
  | query (next : σ → Script σ ε α)

variable {σ ω κ ε α β : Type}

namespace Script

def bind : Script σ ε α → (α → Script σ ε β) → Script σ ε β
  | .done a, f => f a
  | .fail err, _ => .fail err
  | .query next, f => .query fun s => (next s).bind f

instance : Monad (Script σ ε) where
  pure := .done
  bind := .bind

/-- One statement that reads. -/
def ask (read : σ → α) : Script σ ε α := .query fun s => .done (read s)

/-- What the code does between two statements. -/
def ofExcept : Except ε α → Script σ ε α
  | .ok a => .done a
  | .error err => .fail err

instance : MonadLift (Except ε) (Script σ ε) := ⟨ofExcept⟩

/-- Statements made only under a condition. -/
def onlyIf (condition : Bool) (check : Script σ ε Unit) : Script σ ε Unit :=
  if condition then check else .done ()

end Script

/-! ### Schedules -/

/-- How writes act on the store and which row each of them locks. -/
structure Database (σ ω κ ε : Type) where
  apply : ω → σ → Except ε σ
  row : ω → κ

inductive Transaction (σ ω ε : Type) where
  | running (script : Script σ ε ω)
  /-- The write has been made and waits for the commit. -/
  | holding (w : ω)
  | committed
  | aborted (err : ε)

/-- The committed store and the two transactions. -/
structure Config (σ ω ε : Type) where
  store : σ
  transaction : Bool → Transaction σ ω ε

namespace Config

def set (c : Config σ ω ε) (i : Bool) (t : Transaction σ ω ε) : Config σ ω ε :=
  { c with transaction := fun j => if j = i then t else c.transaction j }

@[simp] theorem set_store (c : Config σ ω ε) (i : Bool) (t : Transaction σ ω ε) :
    (c.set i t).store = c.store := rfl

@[simp] theorem set_same (c : Config σ ω ε) (i : Bool) (t : Transaction σ ω ε) :
    (c.set i t).transaction i = t := by simp [set]

@[simp] theorem set_other (c : Config σ ω ε) (i : Bool) (t : Transaction σ ω ε) :
    (c.set i t).transaction (!i) = c.transaction (!i) := by simp [set]

/-- Both transactions before their first step. -/
def start (store : σ) (script : Bool → Script σ ε ω) : Config σ ω ε where
  store := store
  transaction i := .running (script i)

end Config

/-- The transaction holds the lock on a row. -/
def Transaction.locks [DecidableEq κ] (db : Database σ ω κ ε) (row : κ) :
    Transaction σ ω ε → Bool
  | .holding w => db.row w = row
  | _ => false

/-- The next step of a transaction, unless it is over or has to wait. -/
def step [DecidableEq κ] (db : Database σ ω κ ε) (c : Config σ ω ε) (i : Bool) :
    Option (Config σ ω ε) :=
  match c.transaction i with
  | .running (.query next) => some (c.set i (.running (next c.store)))
  | .running (.fail err) => some (c.set i (.aborted err))
  | .running (.done w) =>
      if (c.transaction !i).locks db (db.row w) then none
      else
        match db.apply w c.store with
        | .error err => some (c.set i (.aborted err))
        | .ok _ => some (c.set i (.holding w))
  | .holding w =>
      match db.apply w c.store with
      | .error err => some (c.set i (.aborted err))
      | .ok store => some ({ c with store }.set i .committed)
  | .committed => none
  | .aborted _ => none

def run [DecidableEq κ] (db : Database σ ω κ ε) : List Bool → Config σ ω ε → Option (Config σ ω ε)
  | [], c => some c
  | i :: rest, c => (step db c i).bind (run db rest)

/-! ### What a script can come to

`Reaches P p r` says that `p` can get to `r` when every query on the way sees a store
that satisfies `P`, and `Yields P p a` that it can end with `a` in this way.  The second
is what a proof about one script uses: it goes through the script statement by statement.
-/

inductive Reaches (P : σ → Prop) : Script σ ε α → Script σ ε α → Prop
  | here (p : Script σ ε α) : Reaches P p p
  | query {next : σ → Script σ ε α} {s : σ} {r : Script σ ε α} (hs : P s)
      (rest : Reaches P (next s) r) : Reaches P (.query next) r

def Yields (P : σ → Prop) (p : Script σ ε α) (a : α) : Prop := Reaches P p (.done a)

section Reaches

variable {P Q : σ → Prop} {p r : Script σ ε α}

theorem Reaches.mono (h : Reaches P p r) (sub : ∀ s, P s → Q s) : Reaches Q p r := by
  induction h with
  | here p => exact .here p
  | query hs _ ih => exact .query (sub _ hs) ih

/-- One more query at the end. -/
theorem Reaches.snoc {next : σ → Script σ ε α} {s : σ} (h : Reaches P p (.query next))
    (hs : P s) : Reaches P p (next s) := by
  generalize hr : Script.query next = r at h
  induction h with
  | here p =>
      rw [← hr]
      exact .query hs (.here _)
  | query hs' _ ih => exact .query hs' (ih hr)

@[simp] theorem yields_done {a b : α} : Yields P (.done a : Script σ ε α) b ↔ a = b := by
  constructor
  · intro h
    cases h with
    | here => rfl
  · rintro rfl
    exact .here _

@[simp] theorem yields_pure {a b : α} : Yields P (pure a : Script σ ε α) b ↔ a = b :=
  yields_done

@[simp] theorem yields_fail {err : ε} {a : α} : ¬ Yields P (.fail err : Script σ ε α) a := by
  intro h
  cases h

@[simp] theorem yields_query {next : σ → Script σ ε α} {a : α} :
    Yields P (.query next) a ↔ ∃ s, P s ∧ Yields P (next s) a := by
  constructor
  · intro h
    cases h with
    | query hs rest => exact ⟨_, hs, rest⟩
  · rintro ⟨s, hs, rest⟩
    exact .query hs rest

@[simp] theorem yields_ask {read : σ → α} {a : α} :
    Yields P (Script.ask read : Script σ ε α) a ↔ ∃ s, P s ∧ read s = a := by
  simp [Script.ask]

@[simp] theorem yields_lift {x : Except ε α} {a : α} :
    Yields P (liftM x : Script σ ε α) a ↔ x = .ok a := by
  show Yields P (Script.ofExcept x) a ↔ x = .ok a
  cases x with
  | ok b => simp [Script.ofExcept]
  | error err => simp [Script.ofExcept]

@[simp] theorem yields_onlyIf {condition : Bool} {check : Script σ ε Unit} {u : Unit} :
    Yields P (Script.onlyIf condition check) u ↔ (condition = true → Yields P check u) := by
  cases condition with
  | true => simp [Script.onlyIf]
  | false => simp [Script.onlyIf]

/-- A sequence of two parts, each with what it yields. -/
@[simp] theorem yields_bind {p : Script σ ε α} {f : α → Script σ ε β} {b : β} :
    Yields P (p >>= f) b ↔ ∃ a, Yields P p a ∧ Yields P (f a) b := by
  show Yields P (p.bind f) b ↔ _
  induction p with
  | done a => simp [Script.bind]
  | fail err => simp [Script.bind]
  | query next ih =>
      simp only [Script.bind, yields_query, ih]
      constructor
      · rintro ⟨s, hs, a, first, second⟩
        exact ⟨a, ⟨s, hs, first⟩, second⟩
      · rintro ⟨a, ⟨s, hs, first⟩, second⟩
        exact ⟨s, hs, a, first, second⟩

end Reaches

/-! ### Both commit -/

/-- How far a transaction has come from its script by queries that satisfy `P`. -/
def Progress (P : σ → Prop) (p : Script σ ε ω) : Transaction σ ω ε → Prop
  | .running r => Reaches P p r
  | .holding w => Yields P p w
  | .committed => False
  | .aborted _ => True

theorem Progress.mono {P Q : σ → Prop} {p : Script σ ε ω} {t : Transaction σ ω ε}
    (h : Progress P p t) (sub : ∀ s, P s → Q s) : Progress Q p t := by
  cases t with
  | running r => exact Reaches.mono h sub
  | holding w => exact Reaches.mono h sub
  | committed => exact h
  | aborted err => trivial

/-- The one order of commits that a schedule comes to. -/
structure Ordered (db : Database σ ω κ ε) (store : σ) (script : Bool → Script σ ε ω)
    (final : σ) where
  first : Bool
  w : ω
  w' : ω
  between : σ
  reads : Yields (· = store) (script first) w
  applied : db.apply w store = .ok between
  reads' : Yields (fun s => s = store ∨ s = between) (script !first) w'
  applied' : db.apply w' between = .ok final

/-- What a run from `store` has come to: nobody has committed, or one transaction has, or
both have. -/
inductive Phase (db : Database σ ω κ ε) (store : σ) (script : Bool → Script σ ε ω)
    (c : Config σ ω ε) : Prop
  | none (same : c.store = store)
      (progress : ∀ i, Progress (· = store) (script i) (c.transaction i))
  | one (i : Bool) (w : ω) (reads : Yields (· = store) (script i) w)
      (applied : db.apply w store = .ok c.store) (done : c.transaction i = .committed)
      (progress : Progress (fun s => s = store ∨ s = c.store) (script !i) (c.transaction !i))
  | both (order : Ordered db store script c.store) (done : ∀ j, c.transaction j = .committed)

theorem Phase.start (db : Database σ ω κ ε) (store : σ) (script : Bool → Script σ ε ω) :
    Phase db store script (.start store script) :=
  .none rfl fun _ => Reaches.here _

/-- What a step does to the transaction that takes it: it gets on, or it commits. -/
theorem step_cases [DecidableEq κ] {db : Database σ ω κ ε} {c c' : Config σ ω ε} {i : Bool}
    {P : σ → Prop} {p : Script σ ε ω} (seen : P c.store)
    (progress : Progress P p (c.transaction i)) (h : step db c i = some c') :
    (∃ t, Progress P p t ∧ c' = c.set i t) ∨
      (∃ w store, Yields P p w ∧ db.apply w c.store = .ok store ∧
        c' = { c with store }.set i .committed) := by
  rw [step] at h
  match ht : c.transaction i with
  | .running (.query next) =>
      rw [ht] at h progress
      injection h with h
      exact .inl ⟨.running _, Reaches.snoc progress seen, h.symm⟩
  | .running (.fail err) =>
      rw [ht] at h
      injection h with h
      exact .inl ⟨.aborted err, trivial, h.symm⟩
  | .running (.done w) =>
      rw [ht] at h progress
      dsimp only at h
      split at h
      · exact nomatch h
      · split at h
        · injection h with h
          exact .inl ⟨.aborted _, trivial, h.symm⟩
        · injection h with h
          exact .inl ⟨.holding w, progress, h.symm⟩
  | .holding w =>
      rw [ht] at h progress
      dsimp only at h
      split at h
      · injection h with h
        exact .inl ⟨.aborted _, trivial, h.symm⟩
      · rename_i store applied
        injection h with h
        exact .inr ⟨w, store, progress, applied, h.symm⟩
  | .committed =>
      rw [ht] at h
      exact nomatch h
  | .aborted err =>
      rw [ht] at h
      exact nomatch h

theorem step_of_committed [DecidableEq κ] {db : Database σ ω κ ε} {c : Config σ ω ε} {i : Bool}
    (finished : c.transaction i = .committed) : step db c i = none := by
  rw [step, finished]

theorem eq_or_eq_not (i j : Bool) : j = i ∨ j = !i := by
  cases i <;> cases j <;> simp

theorem Phase.step [DecidableEq κ] {db : Database σ ω κ ε} {store : σ}
    {script : Bool → Script σ ε ω} {c c' : Config σ ω ε} {j : Bool}
    (phase : Phase db store script c) (h : ReadCommitted.step db c j = some c') :
    Phase db store script c' := by
  cases phase with
  | none same progress =>
      rcases step_cases same (progress j) h with ⟨t, further, rfl⟩ | ⟨w, s, reads, applied, rfl⟩
      · refine .none same fun i => ?_
        rcases eq_or_eq_not j i with rfl | rfl
        · rw [Config.set_same]
          exact further
        · rw [Config.set_other]
          exact progress _
      · rw [same] at applied
        refine .one j w reads applied (Config.set_same _ _ _) ?_
        rw [Config.set_other]
        exact (progress _).mono fun s hs => .inl hs
  | one i w reads applied finished progress =>
      rcases eq_or_eq_not i j with rfl | rfl
      · rw [step_of_committed finished] at h
        exact nomatch h
      · rcases step_cases (P := fun s => s = store ∨ s = c.store) (.inr rfl) progress h with
          ⟨t, further, rfl⟩ | ⟨w', s, reads', applied', rfl⟩
        · refine .one i w reads applied ?_ ?_
          · rw [← finished]
            simpa using Config.set_other c (!i) t
          · rw [Config.set_same]
            exact further
        · refine .both ⟨i, w, w', c.store, reads, applied, reads', applied'⟩ fun k => ?_
          rcases eq_or_eq_not (!i) k with rfl | rfl
          · exact Config.set_same _ _ _
          · rw [Config.set_other, Bool.not_not]
            exact finished
  | both order finished =>
      rw [step_of_committed (finished j)] at h
      exact nomatch h

theorem Phase.run [DecidableEq κ] {db : Database σ ω κ ε} {store : σ}
    {script : Bool → Script σ ε ω} {schedule : List Bool} {c c' : Config σ ω ε}
    (phase : Phase db store script c) (h : ReadCommitted.run db schedule c = some c') :
    Phase db store script c' := by
  induction schedule generalizing c with
  | nil =>
      injection h with h
      exact h ▸ phase
  | cons i rest ih =>
      obtain ⟨next, first, h⟩ := Option.bind_eq_some_iff.mp h
      exact ih (phase.step first) h

/-- **Two transactions that both commit.**

Whatever the schedule, one committed first: it read the initial store only, and the
other one read either that or what the first one left, and wrote to the latter. -/
theorem ordered_of_run [DecidableEq κ] {db : Database σ ω κ ε} {store : σ}
    {script : Bool → Script σ ε ω} {schedule : List Bool} {c : Config σ ω ε}
    (h : run db schedule (.start store script) = some c)
    (both : ∀ i, c.transaction i = .committed) :
    Nonempty (Ordered db store script c.store) := by
  cases (Phase.start db store script).run h with
  | none _ progress =>
      have stuck := progress true
      rw [both] at stuck
      exact stuck.elim
  | one i _ _ _ _ progress =>
      rw [both] at progress
      exact progress.elim
  | both order _ => exact ⟨order⟩

end ReadCommitted

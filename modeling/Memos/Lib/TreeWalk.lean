/-
Walking a tree.

A walker is called when the walk enters a node and when it leaves it, and may say that the
children are to be skipped or that the walk is over.  When it depends on the node alone
which children are skipped, the walk is a run over a fixed list of events that stops
early; a run that stops has done some of the events, and no fewer would have stopped it.
-/
import Mathlib.Data.List.Basic

namespace TreeWalk

inductive RoseTree (α : Type*) where
  | node (value : α) (children : List (RoseTree α))

inductive WalkStatus where
  | stop
  | skipChildren
  | proceed
deriving DecidableEq

/-- On entering a node and on leaving it. -/
structure Event (α : Type*) where
  value : α
  entering : Bool

variable {σ α : Type*} (walker : σ → Event α → σ × WalkStatus)

def leave (s : σ) (value : α) : σ × Bool :=
  let (s, status) := walker s ⟨value, false⟩
  (s, status = .stop)

mutual

/-- The walk, with the walker's state and whether it is over. -/
def walk (s : σ) : RoseTree α → σ × Bool
  | .node value children =>
      match walker s ⟨value, true⟩ with
      | (s, .stop) => (s, true)
      | (s, .skipChildren) => leave walker s value
      | (s, .proceed) =>
          match walkChildren s children with
          | (s, true) => (s, true)
          | (s, false) => leave walker s value

def walkChildren (s : σ) : List (RoseTree α) → σ × Bool
  | [] => (s, false)
  | child :: children =>
      match walk s child with
      | (s, true) => (s, true)
      | (s, false) => walkChildren s children

end

/-! ### Events -/

variable (skips : α → Bool)

mutual

def events : RoseTree α → List (Event α)
  | .node value children =>
      ⟨value, true⟩ :: ((if skips value then [] else eventsOf children) ++ [⟨value, false⟩])

def eventsOf : List (RoseTree α) → List (Event α)
  | [] => []
  | child :: children => events child ++ eventsOf children

end

/-- Events one after the other, until one is the last. -/
def run (s : σ) : List (Event α) → σ × Bool
  | [] => (s, false)
  | e :: rest =>
      match walker s e with
      | (s, .stop) => (s, true)
      | (s, _) => run s rest

variable {walker skips}

theorem run_append (s : σ) (first second : List (Event α)) :
    run walker s (first ++ second) =
      if (run walker s first).2 = true then run walker s first
      else run walker (run walker s first).1 second := by
  induction first generalizing s with
  | nil => rfl
  | cons e rest ih =>
      rw [List.cons_append, run, run]
      rcases walker s e with ⟨s', _ | _ | _⟩
      · rfl
      · exact ih s'
      · exact ih s'

theorem run_leave (s : σ) (value : α) : run walker s [⟨value, false⟩] = leave walker s value := by
  rw [run, leave]
  rcases walker s ⟨value, false⟩ with ⟨s', _ | _ | _⟩
  · rfl
  · rfl
  · rfl

mutual

theorem walk_eq_run (skipping : ∀ s value, (walker s ⟨value, true⟩).2 = .skipChildren ↔ skips value = true)
    (s : σ) : ∀ tree, walk walker s tree = run walker s (events skips tree)
  | .node value children => by
      have status := skipping s value
      rw [walk, events, run]
      rcases entered : walker s ⟨value, true⟩ with ⟨s', _ | _ | _⟩
      · rfl
      · rw [entered] at status
        rw [if_pos (status.mp rfl), List.nil_append]
        exact (run_leave s' value).symm
      · rw [entered] at status
        have kept : ¬skips value = true := fun skipped => WalkStatus.noConfusion (status.mpr skipped)
        rw [if_neg kept]
        dsimp only
        rw [run_append, ← walkChildren_eq_run skipping s' children, run_leave]
        rcases walkChildren walker s' children with ⟨s'', _ | _⟩
        · rfl
        · rfl

theorem walkChildren_eq_run
    (skipping : ∀ s value, (walker s ⟨value, true⟩).2 = .skipChildren ↔ skips value = true) (s : σ) :
    ∀ children, walkChildren walker s children = run walker s (eventsOf skips children)
  | [] => rfl
  | child :: children => by
      rw [walkChildren, eventsOf, run_append, ← walk_eq_run skipping s child]
      rcases walk walker s child with ⟨s', _ | _⟩
      · exact walkChildren_eq_run skipping s' children
      · rfl

end

/-! ### Where a run stops -/

variable (walker) in
/-- The state after events, whatever they say. -/
def after (s : σ) (done : List (Event α)) : σ := done.foldl (fun s e => (walker s e).1) s

variable (walker) in
/-- The run is over with the last of these events, and not before. -/
inductive StopsAfter : σ → List (Event α) → Prop
  | last {s : σ} {e : Event α} (ended : (walker s e).2 = .stop) : StopsAfter s [e]
  | cons {s : σ} {e : Event α} {done : List (Event α)} (proceeds : (walker s e).2 ≠ .stop)
      (later : StopsAfter (walker s e).1 done) : StopsAfter s (e :: done)

variable (walker) in
/-- A run goes to its end, or to the first event that stops it. -/
theorem run_spec (s : σ) (list : List (Event α)) :
    (∃ done rest, list = done ++ rest ∧ StopsAfter walker s done ∧
      run walker s list = (after walker s done, true)) ∨
    (∀ done rest, list = done ++ rest → ¬StopsAfter walker s done) ∧
      run walker s list = (after walker s list, false) := by
  induction list generalizing s with
  | nil =>
      right
      refine ⟨fun done rest split stops => ?_, rfl⟩
      rw [(List.append_eq_nil_iff.mp split.symm).1] at stops
      cases stops
  | cons e list ih =>
      by_cases ended : (walker s e).2 = .stop
      · left
        refine ⟨[e], list, rfl, .last ended, ?_⟩
        rw [run]
        rcases entered : walker s e with ⟨s', _ | _ | _⟩
        · rw [after, List.foldl_cons, entered]
          rfl
        · rw [entered] at ended
          cases ended
        · rw [entered] at ended
          cases ended
      · have goes : run walker s (e :: list) = run walker (walker s e).1 list := by
          rw [run]
          rcases entered : walker s e with ⟨s', _ | _ | _⟩
          · rw [entered] at ended
            exact absurd rfl ended
          · rfl
          · rfl
        rw [goes]
        rcases ih (walker s e).1 with ⟨done, rest, rfl, stops, ran⟩ | ⟨never, ran⟩
        · left
          exact ⟨e :: done, rest, rfl, .cons ended stops, ran⟩
        · right
          refine ⟨fun done rest split stops => ?_, ran⟩
          cases stops with
          | last stop =>
              rw [List.singleton_append, List.cons.injEq] at split
              exact ended (split.1 ▸ stop)
          | cons _ later =>
              rw [List.cons_append, List.cons.injEq] at split
              obtain ⟨rfl, split⟩ := split
              exact never _ rest split later

/-- No two beginnings of a list are where a run stops. -/
theorem StopsAfter.unique {s : σ} {done done' rest rest' : List (Event α)}
    (stops : StopsAfter walker s done) (stops' : StopsAfter walker s done')
    (same : done ++ rest = done' ++ rest') : done = done' ∧ rest = rest' := by
  induction stops generalizing done' with
  | last ended =>
      cases stops' with
      | last ended' =>
          rw [List.singleton_append, List.singleton_append, List.cons.injEq] at same
          exact ⟨by rw [same.1], same.2⟩
      | cons proceeds later =>
          rw [List.singleton_append, List.cons_append, List.cons.injEq] at same
          exact absurd ended (same.1 ▸ proceeds)
  | cons proceeds later ih =>
      cases stops' with
      | last ended' =>
          rw [List.singleton_append, List.cons_append, List.cons.injEq] at same
          exact absurd ended' (same.1 ▸ proceeds)
      | cons proceeds' later' =>
          rw [List.cons_append, List.cons_append, List.cons.injEq] at same
          obtain ⟨rfl, same⟩ := same
          obtain ⟨rfl, rfl⟩ := ih later' same
          exact ⟨rfl, rfl⟩

end TreeWalk

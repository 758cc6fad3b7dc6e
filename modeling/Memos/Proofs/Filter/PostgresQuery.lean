/-
The numbers of the placeholders on Postgres.

A part of a query is *bound* between two lists of arguments when the numbers in it are those
of the arguments added between them, and when, with the arguments put in their places, it is
the text that is meant.  Whether all the numbers between are in it is said by a proposition:
of a clause written by hand it is true, and of a filter it is that no argument is folded away.
Bound parts that follow one another are bound together, so a query is right when its clauses
are.
-/
import Memos.Proofs.Filter.Placeholders

namespace Memos.Filter.Postgres

open Sql

/-! ### Arguments in their places -/

/-- A piece of a text with its arguments written out. -/
inductive Inline where
  | text (s : String)
  | value (v : Value)
  /-- A placeholder without an argument. -/
  | missing

/-- What a piece says when these are the arguments. -/
def fill (args : List Value) : Piece → Inline
  | .text s => .text s
  | .placeholder n => (args[n - 1]?).elim .missing .value

def Piece.number? : Piece → Option Nat
  | .text _ => none
  | .placeholder n => some n

def numbers (pieces : List Piece) : List Nat := pieces.filterMap Piece.number?

theorem numbers_append (pieces pieces' : List Piece) :
    numbers (pieces ++ pieces') = numbers pieces ++ numbers pieces' := List.filterMap_append ..

theorem map_join {α β : Type} (f : α → β) (separator : α) (parts : List (List α)) :
    (join separator parts).map f = join (f separator) (parts.map (List.map f)) := by
  unfold join
  induction parts with
  | nil => rfl
  | cons part parts ih =>
      cases parts with
      | nil => simp
      | cons next parts =>
          rw [List.intersperse_cons_cons, List.flatten_cons, List.flatten_cons, List.map_append,
            List.map_append, ih]
          rfl

theorem numbers_join (separator : String) (parts : List (List Piece)) :
    numbers (join (.text separator) parts) = numbers parts.flatten := by
  unfold join
  induction parts with
  | nil => rfl
  | cons part parts ih =>
      cases parts with
      | nil => rfl
      | cons next parts =>
          rw [List.intersperse_cons_cons, List.flatten_cons, List.flatten_cons, numbers_append,
            numbers_append, ih]
          exact (numbers_append part (next :: parts).flatten).symm

/-! ### Bound parts -/

structure Bound (args : List Value) (parts : List (List Piece)) (args' : List Value)
    (meant : List (List Inline)) (whole : Prop) : Prop where
  grows : args <+: args'
  within : ∀ n ∈ numbers parts.flatten, args.length < n ∧ n ≤ args'.length
  meant : ∀ later, args' <+: later → parts.map (List.map (fill later)) = meant
  whole : (∀ n, args.length < n → n ≤ args'.length → n ∈ numbers parts.flatten) ↔ whole

namespace Bound

variable {args args' args'' : List Value} {parts parts' : List (List Piece)}
  {meant meant' : List (List Inline)} {whole whole' : Prop}

theorem nil (args : List Value) : Bound args [] args [] True where
  grows := List.prefix_rfl
  within n h := by simp [numbers] at h
  meant _ _ := rfl
  whole := iff_true_intro fun n low high => absurd low (by omega)

theorem text (args : List Value) (s : String) : Bound args [[.text s]] args [[.text s]] True where
  grows := List.prefix_rfl
  within n h := by simp [numbers, Piece.number?] at h
  meant _ _ := rfl
  whole := iff_true_intro fun n low high => absurd low (by omega)

/-- A placeholder for the argument that is appended. -/
theorem bindArg (args : List Value) (value : Value) :
    Bound args [[(bindArg args value).1]] (bindArg args value).2 [[.value value]] True := by
  have length : (args ++ [value]).length = args.length + 1 := List.length_append
  refine ⟨List.prefix_append _ _, fun n h => ?_, fun later more => ?_, ?_⟩
  · have h : n = args.length + 1 := by simpa [numbers, Piece.number?, Postgres.bindArg] using h
    show args.length < n ∧ n ≤ (args ++ [value]).length
    omega
  · obtain ⟨rest, rfl⟩ := more
    simp [Postgres.bindArg, fill]
  · refine iff_true_intro fun n low high => ?_
    have high : n ≤ (args ++ [value]).length := high
    have h : n = args.length + 1 := by omega
    simp [numbers, Piece.number?, Postgres.bindArg, h]

theorem append (first : Bound args parts args' meant whole)
    (second : Bound args' parts' args'' meant' whole') :
    Bound args (parts ++ parts') args'' (meant ++ meant') (whole ∧ whole') := by
  have longer := first.grows.length_le
  have longer' := second.grows.length_le
  refine ⟨first.grows.trans second.grows, fun n h => ?_, fun later more => ?_, ?_⟩
  · rw [List.flatten_append, numbers_append] at h
    rcases List.mem_append.mp h with h | h
    · have := first.within n h
      omega
    · have := second.within n h
      omega
  · rw [List.map_append, first.meant later (second.grows.trans more), second.meant later more]
  · rw [List.flatten_append, numbers_append, ← first.whole, ← second.whole]
    constructor
    · intro all
      refine ⟨fun n low high => ?_, fun n low high => ?_⟩
      · refine (List.mem_append.mp (all n low (by omega))).resolve_right fun h => ?_
        have := second.within n h
        omega
      · refine (List.mem_append.mp (all n (by omega) high)).resolve_left fun h => ?_
        have := first.within n h
        omega
    · rintro ⟨early, late⟩ n low high
      by_cases split : n ≤ args'.length
      · exact List.mem_append.mpr (.inl (early n low split))
      · exact List.mem_append.mpr (.inr (late n (by omega) high))

theorem and (first : Bound args parts args' meant True)
    (second : Bound args' parts' args'' meant' True) :
    Bound args (parts ++ parts') args'' (meant ++ meant') True :=
  true_and True ▸ first.append second

theorem flatten (bound : Bound args parts args' meant whole) :
    Bound args [parts.flatten] args' [meant.flatten] whole where
  grows := bound.grows
  within := by
    rw [List.flatten_singleton]
    exact bound.within
  meant later more := by
    rw [List.map_singleton, List.map_flatten, bound.meant later more]
  whole := by
    rw [List.flatten_singleton]
    exact bound.whole

theorem three {args₀ args₁ args₂ args₃ : List Value} {a b c : List Piece} {x y z : List Inline}
    (first : Bound args₀ [a] args₁ [x] True) (second : Bound args₁ [b] args₂ [y] True)
    (third : Bound args₂ [c] args₃ [z] True) :
    Bound args₀ [a ++ b ++ c] args₃ [x ++ y ++ z] True := by
  have bound := ((first.and second).and third).flatten
  rw [List.flatten_append, List.flatten_append, List.flatten_singleton, List.flatten_singleton,
    List.flatten_singleton, List.flatten_append, List.flatten_append, List.flatten_singleton,
    List.flatten_singleton, List.flatten_singleton] at bound
  exact bound

theorem join (bound : Bound args parts args' meant whole) (separator : String) :
    Bound args [join (.text separator) parts] args' [Postgres.join (.text separator) meant] whole where
  grows := bound.grows
  within := by
    rw [List.flatten_singleton, numbers_join]
    exact bound.within
  meant later more := by
    rw [List.map_singleton, map_join, bound.meant later more]
    rfl
  whole := by
    rw [List.flatten_singleton, numbers_join]
    exact bound.whole

end Bound

/-! ### Rendered filters -/

/-- The offset is for the text only. -/
theorem renderTagConditions_offset (S : Schema) (d : Dialect) (n m : Nat) (field : Field)
    (values : List ValueExpr) :
    renderTagConditions ⟨S, d, n⟩ field values = renderTagConditions ⟨S, d, m⟩ field values := by
  induction values with
  | nil => rfl
  | cons value values ih =>
      unfold renderTagConditions
      rw [ih]
      rfl

theorem renderCondition_offset (S : Schema) (d : Dialect) (n m : Nat) (c : Condition) :
    renderCondition ⟨S, d, n⟩ c = renderCondition ⟨S, d, m⟩ c := by
  induction c with
  | logical op left right ihl ihr =>
      unfold renderCondition
      rw [ihl, ihr]
  | not expr ih =>
      unfold renderCondition
      rw [ih]
  | inList left values =>
      unfold renderCondition renderInCondition renderTagInList
      simp only [renderTagConditions_offset S d n m]
      rfl
  | _ => rfl

theorem compile_eq (q : Query) (S : Schema) (c : Condition) :
    q.compile S c = Renderer.render ⟨S, .postgres, 0⟩ c := by
  unfold Query.compile Renderer.render
  rw [renderCondition_offset]

/-- What a rendered filter says, with its own arguments in their places. -/
def inlineStatement (before after : String) (s : Statement) : List (List Inline) :=
  match s.sql with
  | none => []
  | some sql => [[.text before] ++ sql.pieces.map (fun piece => fill s.args (Piece.ofSql 0 piece))
      ++ [.text after]]

/-- A filter leaves no argument without its placeholder. -/
def Keeps (S : Schema) (c : Condition) : Prop :=
  c.constValue = some true ∨ c.foldsArgument .postgres S = false

instance (S : Schema) (c : Condition) : Decidable (Keeps S c) :=
  inferInstanceAs (Decidable (_ ∨ _))

theorem numbers_ofSql (n : Nat) (pieces : List Sql.Piece) :
    numbers (pieces.map (Piece.ofSql n)) = (holesOf pieces).map fun k => n + (k + 1) := by
  unfold numbers holesOf
  rw [List.filterMap_map, List.map_filterMap]
  congr 1
  funext piece
  cases piece
  all_goals rfl

theorem fill_ofSql (args args' later : List Value) (more : args ++ args' <+: later) {piece : Sql.Piece}
    (within : ∀ k, piece.position? = some k → k < args'.length) :
    fill later (Piece.ofSql args.length piece) = fill args' (Piece.ofSql 0 piece) := by
  cases piece with
  | text s => rfl
  | hole k =>
      obtain ⟨rest, rfl⟩ := more
      have small : k < args'.length := within k rfl
      show ((args ++ args' ++ rest)[args.length + (k + 1) - 1]?).elim _ _ = (args'[0 + (k + 1) - 1]?).elim _ _
      have here : args.length + (k + 1) - 1 = args.length + k := by omega
      have there : 0 + (k + 1) - 1 = k := by omega
      rw [here, there, List.append_assoc, List.getElem?_append_right (Nat.le_add_right _ _),
        Nat.add_sub_cancel_left, List.getElem?_append_left small]

/-- A clause is bound between the arguments before it and those after it. -/
def Extends (q q' : Query) (meant : List (List Inline)) (whole : Prop) : Prop :=
  ∃ parts, q'.clauses = q.clauses ++ parts ∧ Bound q.args parts q'.args meant whole

theorem Extends.refl (q : Query) : Extends q q [] True := ⟨[], (List.append_nil _).symm, .nil _⟩

theorem Extends.append {q q' q'' : Query} {meant meant' : List (List Inline)} {whole whole' : Prop}
    (first : Extends q q' meant whole) (second : Extends q' q'' meant' whole') :
    Extends q q'' (meant ++ meant') (whole ∧ whole') := by
  obtain ⟨parts, clauses, bound⟩ := first
  obtain ⟨parts', clauses', bound'⟩ := second
  exact ⟨parts ++ parts', by rw [clauses', clauses, List.append_assoc], bound.append bound'⟩

theorem Extends.and {q q' q'' : Query} {meant meant' : List (List Inline)}
    (first : Extends q q' meant True) (second : Extends q' q'' meant' True) :
    Extends q q'' (meant ++ meant') True := true_and True ▸ first.append second

/-- What is known of a statement whose text is not empty. -/
structure Fragment (S : Schema) (c : Condition) (s : Statement) (sql : Pred) : Prop where
  within : sql.holes.Sublist (List.range s.args.length)
  all : sql.holes = List.range s.args.length ↔ Keeps S c

theorem fragment_of_render {S : Schema} {c : Condition} {s : Statement} {sql : Pred}
    (ok : Renderer.render ⟨S, .postgres, 0⟩ c = .ok s) (some : s.sql = some sql) :
    Fragment S c s sql := by
  have holes : s.holes = sql.holes := by
    unfold Statement.holes
    rw [some]
  obtain ⟨args, kept, inOrder⟩ := render_counts ok
  have within := render_within ok
  rw [holes] at kept inOrder within
  refine ⟨within, fun all => .inr ?_, fun keeps => ?_⟩
  · rw [← Condition.keptArgs_eq_iff, ← kept, ← args, all, List.length_range]
  · rcases keeps with constant | folds
    · -- A filter that folds to true has no text.
      obtain ⟨r, st, tree, -, shape⟩ := render_ok ok
      cases r with
      | trivial => exact absurd (some.symm.trans shape) (by simp)
      | unsatisfiable =>
          have value : c.constValue = Option.some false := tree.result
          rw [value] at constant
          cases constant
      | fragment p =>
          have value : FragmentOf ⟨S, .postgres, 0⟩ c {} p st := tree.result
          rw [value.open'] at constant
          cases constant
    · exact inOrder folds

theorem sql_bound {S : Schema} {c : Condition} {s : Statement} {sql : Pred}
    (fragment : Fragment S c s sql) (args : List Value) :
    Bound args [sql.pieces.map (Piece.ofSql args.length)] (args ++ s.args)
      [sql.pieces.map fun piece => fill s.args (Piece.ofSql 0 piece)] (Keeps S c) := by
  have small : ∀ k ∈ sql.holes, k < s.args.length :=
    fun k h => List.mem_range.mp (fragment.within.subset h)
  have length : (args ++ s.args).length = args.length + s.args.length := List.length_append
  have listed : ∀ n, n ∈ numbers [sql.pieces.map (Piece.ofSql args.length)].flatten
      ↔ ∃ k ∈ sql.holes, args.length + (k + 1) = n := by
    intro n
    rw [List.flatten_singleton, numbers_ofSql]
    exact List.mem_map
  refine ⟨List.prefix_append _ _, fun n h => ?_, fun later more => ?_, ?_⟩
  · obtain ⟨k, there, rfl⟩ := (listed n).mp h
    have := small k there
    omega
  · rw [List.map_singleton, List.map_map]
    refine congrArg (fun part => [part]) (List.map_congr_left fun piece there => ?_)
    refine fill_ofSql args s.args later more fun k position => small k ?_
    exact List.mem_filterMap.mpr ⟨piece, there, position⟩
  · rw [← fragment.all]
    constructor
    · intro all
      have covered : List.range s.args.length ⊆ sql.holes := by
        intro k h
        have bound := List.mem_range.mp h
        obtain ⟨k', there, same⟩ := (listed (args.length + (k + 1))).mp (all _ (by omega) (by omega))
        have same : k' = k := by omega
        exact same ▸ there
      exact fragment.within.eq_of_length_le (List.nodup_range.length_le_of_subset covered)
    · intro all n low high
      refine (listed n).mpr ⟨n - args.length - 1, ?_, by omega⟩
      rw [all, List.mem_range]
      omega

theorem statement_extends {q : Query} {S : Schema} {c : Condition} {s : Statement}
    (ok : q.compile S c = .ok s) (before after : String) :
    Extends q (q.statement before after s) (inlineStatement before after s) (Keeps S c) := by
  rw [compile_eq] at ok
  unfold Query.statement inlineStatement
  cases is : s.sql with
  | none =>
      have keeps : Keeps S c := by
        obtain ⟨r, st, tree, -, shape⟩ := render_ok ok
        rw [is] at shape
        cases r with
        | trivial => exact .inl tree.result
        | unsatisfiable => cases shape
        | fragment p => cases shape
      rw [eq_true keeps]
      exact Extends.refl q
  | some sql =>
      have bound := ((Bound.text q.args before).append (sql_bound (fragment_of_render ok is) q.args)).append
        (Bound.text (q.args ++ s.args) after)
      rw [true_and, and_true] at bound
      exact ⟨_, rfl, by simpa using bound.flatten⟩

/-- What a filter says, with its own arguments in their places. -/
def inlineFilter (S : Schema) (before after : String) (filter : Condition) : List (List Inline) :=
  match Renderer.render ⟨S, .postgres, 0⟩ filter with
  | .ok s => inlineStatement before after s
  | .error _ => []

theorem inlineFilter_of_compile {q : Query} {S : Schema} {filter : Condition} {s : Statement}
    (ok : q.compile S filter = .ok s) (before after : String) :
    inlineFilter S before after filter = inlineStatement before after s := by
  rw [compile_eq] at ok
  unfold inlineFilter
  rw [ok]

theorem filters_extends {S : Schema} {filters : List Condition} {q q' : Query}
    (ok : Query.filters S filters q = .ok q') :
    Extends q q' (filters.flatMap (inlineFilter S "(" ")")) (∀ filter ∈ filters, Keeps S filter) := by
  induction filters generalizing q with
  | nil =>
      cases ok
      rw [eq_true (List.forall_mem_nil _)]
      exact Extends.refl _
  | cons filter rest ih =>
      unfold Query.filters at ok
      cases compiled : q.compile S filter with
      | error e =>
          rw [compiled] at ok
          cases ok
      | ok s =>
          rw [compiled] at ok
          have step := (statement_extends compiled "(" ")").append (ih ok)
          rw [List.flatMap_cons, inlineFilter_of_compile compiled, List.forall_mem_cons]
          exact step

/-! ### Clauses written by hand -/

def compared (before : String) (value : Option Value) (after : String) : List (List Inline) :=
  value.toList.map fun value => [.text before, .value value, .text after]

def listed (values : List Value) : List Inline := join (.text ", ") (values.map ([.value ·]))

def comparedIn (before : String) (values : List Value) : List (List Inline) :=
  if values = [] then [] else [[.text before] ++ listed values ++ [.text ")"]]

theorem Extends.of_parts {q : Query} {parts : List (List Piece)} {args : List Value}
    {meant : List (List Inline)} (bound : Bound q.args parts args meant True) :
    Extends q { clauses := q.clauses ++ [parts.flatten], args } [meant.flatten] True :=
  ⟨_, rfl, bound.flatten⟩

theorem clause_extends (q : Query) (text : String) : Extends q (q.clause text) [[.text text]] True :=
  ⟨_, rfl, .text q.args text⟩

theorem clauseIf_extends (q : Query) (condition : Bool) (text : String) :
    Extends q (q.clauseIf condition text) (if condition then [[.text text]] else []) True := by
  unfold Query.clauseIf
  by_cases h : condition = true
  · rw [if_pos h, if_pos h]
    exact clause_extends q text
  · rw [if_neg h, if_neg h]
    exact .refl q

theorem compare_extends (q : Query) (before : String) (value : Value) (after : String) :
    Extends q (q.compare before value after) [[.text before, .value value, .text after]] True :=
  .of_parts (((Bound.text q.args before).and (.bindArg q.args value)).and (.text _ after))

theorem compare?_extends (q : Query) (before : String) (value : Option Value) (after : String) :
    Extends q (q.compare? before value after) (compared before value after) True := by
  cases value with
  | none => exact .refl q
  | some value => exact compare_extends q before value after

theorem holders_bound (values args : List Value) :
    Bound args ((holders values args).1.map ([·])) (holders values args).2 (values.map ([.value ·])) True := by
  induction values generalizing args with
  | nil => exact .nil args
  | cons value values ih => exact (Bound.bindArg args value).and (ih _)

theorem compareIn_extends (q : Query) (before : String) (values : List Value) :
    Extends q (q.compareIn before values) (comparedIn before values) True := by
  unfold Query.compareIn comparedIn
  by_cases h : values = []
  · rw [if_pos h, if_pos h]
    exact .refl q
  · rw [if_neg h, if_neg h]
    exact ⟨_, rfl, .three (.text q.args before) ((holders_bound values q.args).join ", ") (.text _ ")")⟩

/-- The values at one end or the other. -/
def eitherEnd (values : List Value) : List (List Inline) :=
  if values = [] then []
  else [[.text "(memo_id IN ("] ++ listed values ++ [.text ") OR related_memo_id IN ("]
    ++ listed values ++ [.text "))"]]

theorem eitherEnd_extends (q : Query) (values : List Value) :
    Extends q (q.eitherEnd values) (eitherEnd values) True := by
  unfold Query.eitherEnd eitherEnd
  by_cases h : values = []
  · rw [if_pos h, if_pos h]
    exact .refl q
  · rw [if_neg h, if_neg h]
    have first := Bound.three (.text q.args "(memo_id IN (") ((holders_bound values q.args).join ", ")
      (.text _ ") OR related_memo_id IN (")
    exact ⟨_, rfl, .three first ((holders_bound values _).join ", ") (.text _ "))")⟩

/-! ### The access predicate -/

def asUser (userID : Int) : Piece → Inline
  | .text s => .text s
  | .placeholder _ => .value (.int userID)

def inlineAccess (access : MemoAccessScope) : List Inline :=
  (postgresMemoAccessPredicate "memo" "access_member" access []).1.map
    (asUser (access.userID.getD 0))

/-- When one value is bound throughout, each placeholder means it. -/
theorem Bound.same {args args' : List Value} {parts : List (List Piece)} {meant : List (List Inline)}
    {whole : Prop} (bound : Bound args parts args' meant whole) (userID : Int)
    (same : ∀ i, args.length ≤ i → i < args'.length → args'[i]? = some (.int userID)) :
    meant = parts.map (List.map (asUser userID)) := by
  rw [← bound.meant args' List.prefix_rfl]
  refine List.map_congr_left fun part there => List.map_congr_left fun piece is => ?_
  cases piece with
  | text s => rfl
  | placeholder n =>
      have number : n ∈ numbers parts.flatten :=
        List.mem_filterMap.mpr ⟨.placeholder n, List.mem_flatten.mpr ⟨part, there, is⟩, rfl⟩
      have within := bound.within n number
      show (args'[n - 1]?).elim _ _ = _
      rw [same (n - 1) (by omega) (by omega)]
      rfl

theorem publicClauses_bound (allowPublic : Bool) (args : List Value) :
    ∃ meant, Bound args (if allowPublic then publicClauses "memo" else []) args meant True := by
  cases allowPublic with
  | false => exact ⟨_, .nil args⟩
  | true => exact ⟨_, (Bound.text args _).and (.text args _)⟩

theorem Bound.around (args : List Value) (before : String) (value : Value) (after : String) :
    Bound args [[.text before, (Postgres.bindArg args value).1, .text after]]
      (Postgres.bindArg args value).2 [[.text before, .value value, .text after]] True :=
  (((Bound.text args before).and (.bindArg args value)).and (.text _ after)).flatten

theorem authenticatedClauses_bound (allowProtected : Bool) (args : List Value) (value : Value) :
    ∃ meant, Bound args
      (authenticatedClauses "memo" "access_member" allowProtected (bindArg args value).1
        (bindArg (args ++ [value]) value).1 (bindArg (args ++ [value] ++ [value]) value).1)
      (args ++ [value] ++ [value] ++ [value]) meant True := by
  obtain ⟨meant, optional⟩ : ∃ meant, Bound (args ++ [value] ++ [value])
      (if allowProtected then [[.text ("memo" ++ ".visibility = 'PROTECTED'")]] else [])
      (args ++ [value] ++ [value]) meant True := by
    cases allowProtected with
    | false => exact ⟨_, .nil _⟩
    | true => exact ⟨_, .text _ _⟩
  exact ⟨_, (((Bound.around args _ value _).and (.around _ _ value _)).and optional).and
    ((Bound.around _ _ value _).and (.text _ _))⟩

/-- The text of the predicate does not depend on what is bound before it. -/
theorem access_asUser (access : MemoAccessScope) (args : List Value) (userID : Int) :
    (postgresMemoAccessPredicate "memo" "access_member" access args).1.map (asUser userID)
      = (postgresMemoAccessPredicate "memo" "access_member" access []).1.map (asUser userID) := by
  obtain ⟨user, allowPublic, allowProtected⟩ := access
  cases user with
  | none =>
      cases allowPublic with
      | false => rfl
      | true => rfl
  | some user =>
      cases allowPublic
      all_goals
        cases allowProtected
        all_goals rfl

theorem access_args (access : MemoAccessScope) (args : List Value) :
    (postgresMemoAccessPredicate "memo" "access_member" access args).2
      = args ++ (access.userID.elim [] fun userID => List.replicate 5 (.int userID)) := by
  obtain ⟨user, allowPublic, allowProtected⟩ := access
  cases user with
  | none =>
      cases allowPublic with
      | false => exact (List.append_nil _).symm
      | true => exact (List.append_nil _).symm
  | some userID => simp [postgresMemoAccessPredicate, bindArg, List.replicate]

theorem access_numbered (access : MemoAccessScope) (args : List Value) :
    ∃ meant, Bound args [(postgresMemoAccessPredicate "memo" "access_member" access args).1]
      (postgresMemoAccessPredicate "memo" "access_member" access args).2 meant True := by
  obtain ⟨user, allowPublic, allowProtected⟩ := access
  obtain ⟨meant, readable⟩ := publicClauses_bound allowPublic args
  cases user with
  | none =>
      cases allowPublic with
      | false => exact ⟨_, .text args "1 = 0"⟩
      | true => exact ⟨_, .three (.text args "(") (readable.join " OR ") (.text _ _)⟩
  | some userID =>
      obtain ⟨authentic, authenticated⟩ := authenticatedClauses_bound allowProtected
        (args ++ [.int userID]) (.int userID)
      have signedIn := Bound.three
        (.around args "(EXISTS (SELECT 1 FROM \"user\" AS access_user WHERE access_user.id = "
          (.int userID) " AND access_user.row_status = 'NORMAL') AND (")
        (authenticated.join " OR ") (.text _ "))")
      exact ⟨_, .three (.text args "(") ((readable.and signedIn).join " OR ")
        (.around _ _ (.int userID) _)⟩

theorem access_bound (access : MemoAccessScope) (args : List Value) :
    Bound args [(postgresMemoAccessPredicate "memo" "access_member" access args).1]
      (postgresMemoAccessPredicate "memo" "access_member" access args).2 [inlineAccess access] True := by
  obtain ⟨meant, bound⟩ := access_numbered access args
  have same := bound.same (access.userID.getD 0) fun i low high => ?_
  · rw [List.map_singleton, access_asUser] at same
    rw [same] at bound
    exact bound
  · rw [access_args] at high ⊢
    cases user : access.userID with
    | none =>
        rw [user] at high
        simp only [Option.elim_none, List.append_nil] at high
        omega
    | some userID =>
        rw [user] at high
        simp only [Option.elim_some, List.length_append, List.length_replicate] at high
        rw [Option.elim_some, List.getElem?_append_right low, List.getElem?_replicate,
          if_pos (by omega), Option.getD_some]

theorem access_extends (q : Query) (access : Option MemoAccessScope) :
    Extends q (q.access access) (access.toList.map inlineAccess) True := by
  cases access with
  | none => exact .refl q
  | some access => exact ⟨_, rfl, access_bound access q.args⟩

/-! ### Whole queries -/

/-- The numbers in the text are those of the arguments, from one on. -/
def Sent.Exact (sent : Sent) : Prop :=
  ∀ n, n ∈ numbers sent.sql ↔ 1 ≤ n ∧ n ≤ sent.args.length

/-- The text with the arguments in the places of their numbers. -/
def Sent.filled (sent : Sent) : List Inline := sent.sql.map (fill sent.args)

/-- A query with values in the places of the placeholders. -/
def inlineQuery (before : String) (clauses : List (List Inline)) (after : String)
    (limit offset : Option Int) : List Inline :=
  [.text before] ++ join (.text " AND ") clauses ++ [.text after] ++ (paging limit offset).map (fill [])

theorem sent_of_extends {q : Query} {meant : List (List Inline)} {whole : Prop}
    (extended : Extends {} q meant whole) (before after : String) (limit offset : Option Int) :
    let sent : Sent := {
      sql := [.text before] ++ join (.text " AND ") q.clauses ++ [.text after] ++ paging limit offset
      args := q.args }
    sent.filled = inlineQuery before meant after limit offset ∧ (sent.Exact ↔ whole) := by
  obtain ⟨parts, clauses, bound⟩ := extended
  have clauses : q.clauses = parts := clauses
  have texts : ∀ args, (paging limit offset).map (fill args) = (paging limit offset).map (fill []) := by
    intro args
    cases limit with
    | none => rfl
    | some limit =>
        cases offset with
        | none => rfl
        | some offset => rfl
  have unnumbered : numbers (paging limit offset) = [] := by
    cases limit with
    | none => rfl
    | some limit =>
        cases offset with
        | none => rfl
        | some offset => rfl
  have all : numbers ([.text before] ++ join (.text " AND ") q.clauses ++ [.text after]
      ++ paging limit offset) = numbers parts.flatten := by
    rw [numbers_append, numbers_append, numbers_append, numbers_join, unnumbered, List.append_nil, clauses]
    exact List.append_nil _
  refine ⟨?_, ?_⟩
  · unfold Sent.filled inlineQuery
    dsimp only
    rw [List.map_append, List.map_append, List.map_append, map_join, clauses,
      bound.meant q.args List.prefix_rfl, texts]
    rfl
  · unfold Sent.Exact
    dsimp only
    rw [all, ← bound.whole]
    constructor
    · intro exact' n low high
      exact (exact' n).mpr ⟨low, high⟩
    · intro every n
      exact ⟨fun h => bound.within n h, fun h => every n h.1 h.2⟩

def FindMemo.inlineStart (find : FindMemo) : List (List Inline) :=
  [[.text "1 = 1"]]
    ++ (match find.deleted with
      | .OnlyDeleted => [[.text "memo.deleted_ts IS NOT NULL"]]
      | .IncludeDeleted => []
      | .live => [[.text "memo.deleted_ts IS NULL"]])
    ++ compared "memo.deleted_ts < " (find.deletedBeforeTs.map .int) ""
    ++ compared "memo.id > " (find.afterID.map .int) ""

def FindMemo.inlineFinish (find : FindMemo) : List (List Inline) :=
  compared "memo.id = " (find.id.map .int) ""
    ++ comparedIn "memo.id IN (" (find.idList.map .int)
    ++ compared "memo.uid = " (find.uid.map .text) ""
    ++ comparedIn "memo.uid IN (" (find.uidList.map .text)
    ++ compared "memo.creator_id = " (find.creatorID.map .int) ""
    ++ compared "memo.row_status = " (find.rowStatus.map .text) ""
    ++ comparedIn "memo.visibility in (" (find.visibilityList.map .text)
    ++ compared inContext (find.commentContextMemoID.map .int) " AND comment_context.type = 'COMMENT')"
    ++ find.access.toList.map inlineAccess
    ++ (if find.excludeComments then [[.text ("NOT " ++ isComment)]] else [])
    ++ (if find.onlyComments then [[.text isComment]] else [])
    ++ (if find.excludeUnsyncedSpaces then [[.text inMainFeed]] else [])

theorem start_extends (find : FindMemo) : Extends {} find.start find.inlineStart True := by
  unfold FindMemo.start FindMemo.inlineStart
  refine Extends.and (.and (.and (clause_extends {} "1 = 1") ?_) (compare?_extends ..)) (compare?_extends ..)
  cases find.deleted with
  | live => exact clause_extends _ _
  | OnlyDeleted => exact clause_extends _ _
  | IncludeDeleted => exact .refl _

theorem finish_extends (find : FindMemo) (q : Query) :
    Extends q (find.finish q) find.inlineFinish True := by
  unfold FindMemo.finish FindMemo.inlineFinish
  exact .and (.and (.and (.and (.and (.and (.and (.and (.and (.and (.and
    (compare?_extends ..) (compareIn_extends ..)) (compare?_extends ..)) (compareIn_extends ..))
    (compare?_extends ..)) (compare?_extends ..)) (compareIn_extends ..)) (compare?_extends ..))
    (access_extends ..)) (clauseIf_extends ..)) (clauseIf_extends ..)) (clauseIf_extends ..)

/-- What the query for relations means, without its filter. -/
def FindMemoRelation.inlineStart (find : FindMemoRelation) : List (List Inline) :=
  [[.text "1 = 1"]]
    ++ [[.text "memo_id IN (SELECT id FROM memo WHERE deleted_ts IS NULL) AND related_memo_id IN (SELECT id FROM memo WHERE deleted_ts IS NULL)"]]
    ++ compared "memo_id = " (find.memoID.map .int) ""
    ++ compared "related_memo_id = " (find.relatedMemoID.map .int) ""
    ++ compared "type = " (find.type.map .text) ""
    ++ eitherEnd (find.memoIDList.map .int)
    ++ comparedIn "memo_id IN (" (find.sourceMemoIDList.map .int)
    ++ comparedIn "related_memo_id IN (" (find.relatedMemoIDList.map .int)
    ++ compared "memo_id IN (SELECT id FROM memo WHERE row_status = " (find.sourceMemoRowStatus.map .text) ")"

theorem relationStart_extends (find : FindMemoRelation) :
    Extends {} find.start find.inlineStart True := by
  unfold FindMemoRelation.start FindMemoRelation.inlineStart
  exact .and (.and (.and (.and (.and (.and (.and (.and
    (clause_extends {} "1 = 1") (clause_extends _ _)) (compare?_extends ..)) (compare?_extends ..))
    (compare?_extends ..)) (eitherEnd_extends ..)) (compareIn_extends ..)) (compareIn_extends ..))
    (compare?_extends ..)

def inlineMemoFilter (filter : Option Condition) : List (List Inline) :=
  filter.toList.flatMap fun filter =>
    inlineFilter memoSchema "memo_id IN (SELECT id FROM memo WHERE " ")" filter
      ++ inlineFilter memoSchema "related_memo_id IN (SELECT id FROM memo WHERE " ")" filter

theorem memoFilter_extends {q q' : Query} {filter : Option Condition}
    (ok : q.memoFilter filter = .ok q') :
    Extends q q' (inlineMemoFilter filter) (∀ f ∈ filter, Keeps memoSchema f) := by
  cases filter with
  | none =>
      cases ok
      rw [eq_true (by simp : ∀ f ∈ (none : Option Condition), Keeps memoSchema f)]
      exact .refl _
  | some filter =>
      dsimp only [Query.memoFilter, bind, Except.bind, pure, Except.pure] at ok
      cases compiled : q.compile memoSchema filter with
      | error e =>
          rw [compiled] at ok
          cases ok
      | ok s =>
          rw [compiled] at ok
          have first := statement_extends compiled "memo_id IN (SELECT id FROM memo WHERE " ")"
          have again := compiled
          rw [compile_eq, ← compile_eq (q.statement "memo_id IN (SELECT id FROM memo WHERE " ")" s)]
            at again
          have second := statement_extends again "related_memo_id IN (SELECT id FROM memo WHERE " ")"
          have both := first.append second
          rw [and_self, ← inlineFilter_of_compile compiled, ← inlineFilter_of_compile compiled] at both
          have goal : Extends q q' (inlineMemoFilter (some filter)) (Keeps memoSchema filter) := by
            unfold inlineMemoFilter
            rw [Option.toList_some, List.flatMap_singleton]
            dsimp only at ok
            split at ok
            · rename_i empty
              cases ok
              unfold Query.statement at both
              simp only [empty] at both
              exact both
            · rw [again] at ok
              cases ok
              exact both
          simpa using goal

/-- **The placeholders are `$1` to `$n` exactly where no filter folds an argument away**, and
each stands where its argument is meant. -/
theorem placeholders_exact_iff (S : Schema) (filters : List Condition) (find : FindMemo)
    (findRelation : FindMemoRelation) (c : Condition) :
    (∀ q q', Query.filters S filters q = .ok q' → ∃ parts,
      q'.clauses = q.clauses ++ parts ∧ q.args <+: q'.args ∧
      (∀ later, q'.args <+: later →
        parts.map (List.map (fill later)) = filters.flatMap (inlineFilter S "(" ")")) ∧
      ((∀ n, n ∈ numbers parts.flatten ↔ q.args.length < n ∧ n ≤ q'.args.length) ↔
        ∀ filter ∈ filters, Keeps S filter)) ∧
    (∀ sent, ListMemos find = .ok sent →
      sent.filled = inlineQuery find.selectFrom (find.inlineStart
        ++ find.filters.flatMap (inlineFilter memoSchema "(" ")") ++ find.inlineFinish)
        (" ORDER BY " ++ find.order) find.limit find.offset ∧
      (sent.Exact ↔ ∀ filter ∈ find.filters, Keeps memoSchema filter)) ∧
    (∀ sent, ListMemoRelations findRelation = .ok sent →
      sent.filled = inlineQuery relationsFrom
        (findRelation.inlineStart ++ inlineMemoFilter findRelation.memoFilter)
        (" ORDER BY " ++ findRelation.order) findRelation.limit findRelation.offset ∧
      (sent.Exact ↔ ∀ filter ∈ findRelation.memoFilter, Keeps memoSchema filter)) ∧
    ∀ s sql, Renderer.render ⟨S, .postgres, 0⟩ c = .ok s → s.sql = some sql →
      ∀ E env V, Represents ⟨S, .postgres, 0⟩ E env V → Binds env s.args →
        sql.eval E env = c.truth E .postgres S V := by
  refine ⟨fun q q' ok => ?_, fun sent ok => ?_, fun sent ok => ?_,
    fun s sql ok is E env V represents binds => ?_⟩
  · obtain ⟨parts, clauses, bound⟩ := filters_extends ok
    refine ⟨parts, clauses, bound.grows, bound.meant, ?_⟩
    rw [← bound.whole]
    exact ⟨fun exact' n low high => (exact' n).mpr ⟨low, high⟩,
      fun every n => ⟨bound.within n, fun h => every n h.1 h.2⟩⟩
  · dsimp only [ListMemos, bind, Except.bind, pure, Except.pure] at ok
    split at ok
    · cases ok
    · rename_i q filtered
      cases ok
      have whole := ((start_extends find).append (filters_extends filtered)).append
        (finish_extends find q)
      rw [true_and, and_true] at whole
      exact sent_of_extends whole _ _ find.limit find.offset
  · dsimp only [ListMemoRelations, bind, Except.bind, pure, Except.pure] at ok
    split at ok
    · cases ok
    · rename_i q filtered
      cases ok
      have whole := (relationStart_extends findRelation).append (memoFilter_extends filtered)
      rw [true_and] at whole
      exact sent_of_extends whole _ _ findRelation.limit findRelation.offset
  · obtain ⟨r, st, tree, args, shape⟩ := render_ok ok
    rw [is] at shape
    cases r with
    | trivial => cases shape
    | unsatisfiable =>
        cases shape
        have value : c.constValue = some false := tree.result
        rw [Condition.truth_of_constValue value, Pred.eval]
    | fragment p =>
        cases shape
        have fragment : FragmentOf ⟨S, .postgres, 0⟩ c {} sql st := tree.result
        rw [args] at binds
        exact (fragment.means E env V represents binds).1

/-- A page of the memos with a text that a user may read. -/
def findX : FindMemo :=
  { filters := [contentIsX], access := some ⟨some 7, true, true⟩, afterID := some 3, limit := some 50 }

theorem placeholders_exact_iff_findX : ∃ sent, ListMemos findX = .ok sent ∧ sent.args.length = 7
    ∧ sent.Exact := by
  obtain ⟨sent, ok, length⟩ : ∃ sent, ListMemos findX = .ok sent ∧ sent.args.length = 7 :=
    ⟨_, rfl, rfl⟩
  exact ⟨sent, ok, length, ((placeholders_exact_iff memoSchema [] findX {} contentIsX).2.1 sent
    ok).2.mpr fun c hc => .inr (by rw [List.mem_singleton.mp hc]; rfl)⟩

/-- With `content == "x" && false` the first argument has no placeholder. -/
theorem first_argument_unnumbered :
    ∃ sent, ListMemos { filters := [.logical .and contentIsX (.constant false)], id := some 3 } = .ok sent
      ∧ sent.args = [.text "x", .int 3] ∧ numbers sent.sql = [2] ∧ ¬sent.Exact := by
  obtain ⟨sent, ok, args, only⟩ : ∃ sent,
      ListMemos { filters := [.logical .and contentIsX (.constant false)], id := some 3 } = .ok sent
        ∧ sent.args = [.text "x", .int 3] ∧ numbers sent.sql = [2] := ⟨_, rfl, rfl, rfl⟩
  refine ⟨sent, ok, args, only, fun exact' => ?_⟩
  have first := (exact' 1).mpr (by rw [args]; decide)
  rw [only] at first
  exact absurd first (by decide)

end Memos.Filter.Postgres

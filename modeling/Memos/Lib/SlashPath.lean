/-
Paths with slashes.

A path is taken apart at its slashes.  Cleaning it drops what says nothing, the empty and
the single-dot elements, and lets a double dot take back the element before it; at the
root there is nothing to take back.

The letters are of any type; of two of them it matters that they are the slash and the dot.
-/
import Mathlib.Data.List.Basic
import Mathlib.Data.List.Induction

namespace SlashPath

variable {α : Type*} [DecidableEq α] (slash dot : α)

def isAbs (path : List α) : Bool := decide (path.head? = some slash)

/-- The elements that are kept, the last one first. -/
def push (rooted : Bool) (kept : List (List α)) (element : List α) : List (List α) :=
  if element = [] ∨ element = [dot] then kept
  else if element = [dot, dot] then
    match kept with
    | [] => if rooted then [] else [element]
    | last :: before => if last = [dot, dot] then element :: kept else before
  else element :: kept

/-- The shortest path that means the same without looking at any file. -/
def clean (path : List α) : List α :=
  let rooted := isAbs slash path
  let kept := ((path.splitOn slash).foldl (push dot rooted) []).reverse
  if rooted then slash :: [slash].intercalate kept
  else if kept = [] then [dot] else [slash].intercalate kept

def join (first second : List α) : List α :=
  if first = [] then if second = [] then [] else clean slash dot second
  else clean slash dot (first ++ slash :: second)

/-- From the last dot of the last element on. -/
def ext (path : List α) : List α :=
  let (name, before) := path.reverse.span fun c => decide (c ≠ slash) && decide (c ≠ dot)
  if before.head? = some dot then dot :: name.reverse else []

def dir (path : List α) : List α :=
  clean slash dot (path.reverse.dropWhile fun c => decide (c ≠ slash)).reverse

/-- The last element, slashes at the end apart. -/
def base (path : List α) : List α :=
  if path = [] then [dot]
  else
    let stripped := path.reverse.dropWhile fun c => decide (c = slash)
    let name := (stripped.takeWhile fun c => decide (c ≠ slash)).reverse
    if name = [] then [slash] else name

/-- The elements, of which the empty ones say nothing. -/
def elements (path : List α) : List (List α) := (path.splitOn slash).filter fun name => !name.isEmpty

/-- What is left of two lists after what they have in common in front. -/
def dropCommon {β : Type*} [DecidableEq β] : List β → List β → List β × List β
  | x :: xs, y :: ys => if x = y then dropCommon xs ys else (x :: xs, y :: ys)
  | xs, ys => (xs, ys)

/-- The way from one path to another: up as far as needed, and down. -/
def rel (from' target : List α) : Option (List α) :=
  let start := clean slash dot from'
  let target := clean slash dot target
  if target = start then some [dot]
  else
    let start := if start = [dot] then [] else start
    if isAbs slash start ≠ isAbs slash target then none
    else
      let (up, down) := dropCommon (elements slash start) (elements slash target)
      if up.head? = some [dot, dot] then none
      else some ([slash].intercalate (up.map (fun _ => [dot, dot]) ++ down))

variable {slash dot}

theorem isAbs_clean {path : List α} (rooted : isAbs slash path = true) :
    isAbs slash (clean slash dot path) = true := by
  unfold clean
  rw [if_pos rooted]
  simp [isAbs]

theorem isAbs_join {first second : List α} (rooted : isAbs slash first = true) :
    isAbs slash (join slash dot first second) = true := by
  cases first with
  | nil => simp [isAbs] at rooted
  | cons c rest =>
      rw [join, if_neg (List.cons_ne_nil c rest)]
      refine isAbs_clean ?_
      simpa [isAbs] using rooted

theorem ne_nil_of_isAbs {path : List α} (rooted : isAbs slash path = true) : path ≠ [] := by
  rintro rfl
  simp [isAbs] at rooted

/-! ### Clean paths -/

variable (slash dot) in
/-- An element that names what stands in a directory. -/
structure IsName (name : List α) : Prop where
  counts : name ≠ [] ∧ name ≠ [dot]
  up : name ≠ [dot, dot]
  free : slash ∉ name

variable (slash dot) in
/-- The elements of a clean path: there is nothing more to drop or to take back. -/
structure Settled (rooted : Bool) (names : List (List α)) : Prop where
  counts : ∀ name ∈ names, name ≠ [] ∧ name ≠ [dot]
  free : ∀ name ∈ names, slash ∉ name
  stays : names.foldl (push dot rooted) [] = names.reverse

variable (slash dot) in
def render (rooted : Bool) (names : List (List α)) : List α :=
  if rooted then slash :: [slash].intercalate names
  else if names = [] then [dot] else [slash].intercalate names

section Names

variable {rooted : Bool} {names rest kept : List (List α)} {name path : List α}

theorem push_name (is : IsName slash dot name) : push dot rooted kept name = name :: kept := by
  unfold push
  rw [if_neg (not_or.mpr is.counts), if_neg is.up]

theorem foldl_push_names (are : ∀ name ∈ names, IsName slash dot name) :
    names.foldl (push dot rooted) kept = names.reverse ++ kept := by
  induction names generalizing kept with
  | nil => rfl
  | cons name names ih =>
      rw [List.forall_mem_cons] at are
      rw [List.foldl_cons, push_name are.1, ih are.2, List.reverse_cons, List.append_assoc]
      rfl

/-- What the elements so far leave is settled, whatever comes next. -/
theorem Settled.next (settled : Settled slash dot rooted kept.reverse) (free : slash ∉ name) :
    Settled slash dot rooted (push dot rooted kept name).reverse := by
  have stays := settled.stays
  rw [List.reverse_reverse] at stays
  have more (pushed : push dot rooted kept name = name :: kept) (counts : name ≠ [] ∧ name ≠ [dot]) :
      Settled slash dot rooted (push dot rooted kept name).reverse := by
    rw [pushed]
    refine ⟨fun other mem => ?_, fun other mem => ?_, ?_⟩
    · rw [List.mem_reverse, List.mem_cons] at mem
      rcases mem with rfl | mem
      · exact counts
      · exact settled.counts other (List.mem_reverse.mpr mem)
    · rw [List.mem_reverse, List.mem_cons] at mem
      rcases mem with rfl | mem
      · exact free
      · exact settled.free other (List.mem_reverse.mpr mem)
    · rw [List.reverse_cons, List.foldl_append, stays, ← List.reverse_cons, List.reverse_reverse]
      exact pushed
  by_cases counts : name = [] ∨ name = [dot]
  · unfold push
    rw [if_pos counts]
    exact settled
  · by_cases up : name = [dot, dot]
    · cases kept with
      | nil =>
          have pushed : push dot rooted [] name = if rooted then [] else [name] := by
            unfold push
            rw [if_neg counts, if_pos up]
          cases rooted with
          | true =>
              rw [pushed]
              exact settled
          | false => exact more pushed (not_or.mp counts)
      | cons last before =>
          have pushed : push dot rooted (last :: before) name =
              if last = [dot, dot] then name :: last :: before else before := by
            unfold push
            rw [if_neg counts, if_pos up]
          by_cases twice : last = [dot, dot]
          · exact more (pushed.trans (if_pos twice)) (not_or.mp counts)
          · -- The last element is taken back, and what is before it was settled before it.
            rw [pushed.trans (if_neg twice)]
            have mem (other : List α) (mem : other ∈ before.reverse) :
                other ∈ (last :: before).reverse := by
              rw [List.reverse_cons]
              exact List.mem_append_left _ mem
            refine ⟨fun other h => settled.counts other (mem other h),
              fun other h => settled.free other (mem other h), ?_⟩
            have own : last ∈ (last :: before).reverse := List.mem_reverse.mpr List.mem_cons_self
            rw [List.reverse_cons, List.foldl_append, List.foldl_cons, List.foldl_nil,
              push_name ⟨settled.counts last own, twice, settled.free last own⟩] at stays
            rw [List.reverse_reverse]
            exact (List.cons.inj stays).2
    · exact more (push_name ⟨not_or.mp counts, up, free⟩) (not_or.mp counts)

theorem settled_nil : Settled slash dot rooted [] :=
  ⟨List.forall_mem_nil _, List.forall_mem_nil _, rfl⟩

theorem settled_foldl (free : ∀ name ∈ names, slash ∉ name) :
    Settled slash dot rooted (names.foldl (push dot rooted) []).reverse := by
  induction names using List.reverseRecOn with
  | nil => exact settled_nil
  | append_singleton names name ih =>
      rw [List.forall_mem_append, List.forall_mem_singleton] at free
      rw [List.foldl_append]
      exact (ih free.1).next free.2

theorem Settled.append (settled : Settled slash dot rooted names)
    (are : ∀ name ∈ rest, IsName slash dot name) : Settled slash dot rooted (names ++ rest) := by
  refine ⟨List.forall_mem_append.mpr ⟨settled.counts, fun name mem => (are name mem).counts⟩,
    List.forall_mem_append.mpr ⟨settled.free, fun name mem => (are name mem).free⟩, ?_⟩
  rw [List.foldl_append, settled.stays, foldl_push_names are, List.reverse_append]

theorem free_of_mem_splitOn (mem : name ∈ path.splitOn slash) : slash ∉ name := by
  induction path generalizing name with
  | nil =>
      rw [List.splitOn_nil, List.mem_singleton] at mem
      rw [mem]
      exact List.not_mem_nil
  | cons c path ih =>
      rw [List.splitOn_cons_eq_if_modifyHead] at mem
      by_cases same : c = slash
      · rw [if_pos (beq_iff_eq.mpr same), List.mem_cons] at mem
        rcases mem with rfl | mem
        · exact List.not_mem_nil
        · exact ih mem
      · rw [if_neg (mt beq_iff_eq.mp same)] at mem
        cases split : path.splitOn slash with
        | nil => exact absurd split (List.splitOn_ne_nil slash path)
        | cons first others =>
            rw [split] at mem ih
            rw [List.modifyHead_cons, List.mem_cons] at mem
            rcases mem with rfl | mem
            · rw [List.mem_cons, not_or]
              exact ⟨Ne.symm same, ih List.mem_cons_self⟩
            · exact ih (List.mem_cons_of_mem _ mem)

theorem push_nil : push dot rooted kept [] = kept := if_pos (.inl rfl)

theorem foldl_splitOn_intercalate (free : ∀ name ∈ names, slash ∉ name) :
    (([slash].intercalate names).splitOn slash).foldl (push dot rooted) kept =
      names.foldl (push dot rooted) kept := by
  cases names with
  | nil =>
      show push dot rooted kept [] = kept
      exact push_nil
  | cons name names => rw [List.splitOn_intercalate slash free (List.cons_ne_nil _ _)]

omit [DecidableEq α] in
theorem head?_intercalate (free : ∀ name ∈ names, slash ∉ name) (full : ∀ name ∈ names, name ≠ []) :
    ([slash].intercalate names).head? ≠ some slash := by
  cases names with
  | nil => simp
  | cons name names =>
      have first := free name List.mem_cons_self
      cases name with
      | nil => exact absurd rfl (full [] List.mem_cons_self)
      | cons c name =>
          have other : c ≠ slash := fun same => first (by rw [same]; exact List.mem_cons_self)
          cases names with
          | nil => simpa using other
          | cons name' names => simpa using other

omit [DecidableEq α] in
theorem intercalate_ne_nil (full : ∀ name ∈ names, name ≠ []) (more : names ≠ []) :
    [slash].intercalate names ≠ [] := by
  cases names with
  | nil => exact absurd rfl more
  | cons name names =>
      have first := full name List.mem_cons_self
      cases names with
      | nil => simpa using first
      | cons name' names => simp

theorem isAbs_render (apart : dot ≠ slash) (settled : Settled slash dot rooted names) :
    isAbs slash (render slash dot rooted names) = rooted := by
  cases rooted with
  | true => simp [isAbs, render]
  | false =>
      unfold render isAbs
      rw [if_neg Bool.false_ne_true, decide_eq_false_iff_not]
      split
      · simpa using apart
      · exact head?_intercalate settled.free fun name mem => (settled.counts name mem).1

theorem foldl_splitOn_render (apart : dot ≠ slash) (settled : Settled slash dot rooted names) :
    ((render slash dot rooted names).splitOn slash).foldl (push dot rooted) [] = names.reverse := by
  rw [← settled.stays, ← foldl_splitOn_intercalate settled.free]
  cases rooted with
  | true =>
      rw [render, if_pos rfl, List.splitOn_cons_eq_if_modifyHead, if_pos (beq_self_eq_true slash),
        List.foldl_cons, push_nil]
  | false =>
      rw [render, if_neg Bool.false_ne_true]
      split
      next none =>
        rw [none, List.splitOn_eq_singleton (by simpa using Ne.symm apart)]
        show push dot false [] [dot] = push dot false [] []
        rw [push_nil]
        exact if_pos (.inr rfl)
      · rfl

theorem exists_render (path : List α) : ∃ names, Settled slash dot (isAbs slash path) names ∧
    clean slash dot path = render slash dot (isAbs slash path) names :=
  ⟨_, settled_foldl fun _ mem => free_of_mem_splitOn mem, rfl⟩

theorem clean_render (apart : dot ≠ slash) (settled : Settled slash dot rooted names) :
    clean slash dot (render slash dot rooted names) = render slash dot rooted names := by
  unfold clean
  dsimp only
  rw [isAbs_render apart settled, foldl_splitOn_render apart settled, List.reverse_reverse]
  rfl

theorem render_ne_nil (settled : Settled slash dot rooted names) :
    render slash dot rooted names ≠ [] := by
  unfold render
  split
  · exact List.cons_ne_nil _ _
  · split
    · exact List.cons_ne_nil _ _
    · exact intercalate_ne_nil (fun name mem => (settled.counts name mem).1) ‹_›

theorem isAbs_append (full : path ≠ []) (more : List α) :
    isAbs slash (path ++ more) = isAbs slash path := by
  cases path with
  | nil => exact absurd rfl full
  | cons c path => rfl

/-- Going down from a clean path. -/
theorem join_render (apart : dot ≠ slash) (settled : Settled slash dot rooted names)
    (are : ∀ name ∈ rest, IsName slash dot name) :
    join slash dot (render slash dot rooted names) ([slash].intercalate rest) =
      render slash dot rooted (names ++ rest) := by
  have start : isAbs slash (render slash dot rooted names ++ slash :: [slash].intercalate rest) =
      rooted := by
    rw [isAbs_append (render_ne_nil settled), isAbs_render apart settled]
  unfold join clean
  dsimp only
  rw [if_neg (render_ne_nil settled), start, List.splitOn_append_cons_self, List.foldl_append,
    foldl_splitOn_render apart settled, foldl_splitOn_intercalate fun name mem => (are name mem).free,
    foldl_push_names are, List.reverse_append, List.reverse_reverse, List.reverse_reverse]
  rfl

/-! ### The way down -/

theorem elements_intercalate (free : ∀ name ∈ names, slash ∉ name) (full : ∀ name ∈ names, name ≠ []) :
    elements slash ([slash].intercalate names) = names := by
  unfold elements
  cases names with
  | nil => rfl
  | cons name names =>
      rw [List.splitOn_intercalate slash free (List.cons_ne_nil _ _), List.filter_eq_self]
      intro name mem
      simpa using full name mem

theorem elements_render (settled : Settled slash dot rooted names)
    (full : rooted = true ∨ names ≠ []) :
    elements slash (render slash dot rooted names) = names := by
  have same := elements_intercalate settled.free fun name mem => (settled.counts name mem).1
  cases rooted with
  | true =>
      refine Eq.trans ?_ same
      unfold elements render
      rw [if_pos rfl, List.splitOn_cons_eq_if_modifyHead, if_pos (beq_self_eq_true slash)]
      rfl
  | false =>
      rw [render, if_neg Bool.false_ne_true, if_neg (full.resolve_left Bool.false_ne_true)]
      exact same

theorem dropCommon_append {β : Type*} [DecidableEq β] (xs ys : List β) :
    dropCommon xs (xs ++ ys) = ([], ys) := by
  induction xs with
  | nil => cases ys with
    | nil => rfl
    | cons y ys => rfl
  | cons x xs ih => rw [List.cons_append, dropCommon, if_pos rfl, ih]

/-- From a path to what is below it. -/
theorem rel_render (apart : dot ≠ slash) (settled : Settled slash dot rooted names)
    (are : ∀ name ∈ rest, IsName slash dot name) (full : rest ≠ []) :
    rel slash dot (render slash dot rooted names) (render slash dot rooted (names ++ rest)) =
      some ([slash].intercalate rest) := by
  have below := settled.append are
  have more : names ++ rest ≠ [] := by simp [full]
  have down := elements_render below (.inr more)
  have differ : render slash dot rooted (names ++ rest) ≠ render slash dot rooted names := by
    intro same
    have kept := foldl_splitOn_render apart below
    rw [same, foldl_splitOn_render apart settled, List.reverse_inj] at kept
    exact full (List.append_right_eq_self.mp kept.symm)
  unfold rel
  dsimp only
  rw [clean_render apart settled, clean_render apart below, if_neg differ]
  -- The path that is nothing but a dot has no elements.
  have start : elements slash (if render slash dot rooted names = [dot] then []
        else render slash dot rooted names) = names ∧
      isAbs slash (if render slash dot rooted names = [dot] then []
        else render slash dot rooted names) = rooted := by
    by_cases none : rooted = false ∧ names = []
    · obtain ⟨rfl, rfl⟩ := none
      rw [if_pos (by rfl)]
      exact ⟨rfl, rfl⟩
    · have other : render slash dot rooted names ≠ [dot] := by
        intro same
        have kept := foldl_splitOn_render apart settled
        rw [same, List.splitOn_eq_singleton (by simpa using Ne.symm apart)] at kept
        have empty : names = [] := List.reverse_eq_nil_iff.mp (kept.symm.trans (if_pos (.inr rfl)))
        have abs := isAbs_render apart settled
        rw [same] at abs
        exact none ⟨abs.symm.trans (by simpa [isAbs] using apart), empty⟩
      rw [if_neg other]
      refine ⟨elements_render settled ?_, isAbs_render apart settled⟩
      cases rooted with
      | true => exact .inl rfl
      | false => exact .inr fun empty => none ⟨rfl, empty⟩
  rw [start.1, start.2, isAbs_render apart below, if_neg (not_not.mpr rfl), down, dropCommon_append]
  rfl

/-! ### Below the root -/

theorem push_up : push dot true kept [dot, dot] =
    if kept.head? = some [dot, dot] then [dot, dot] :: kept else kept.tail := by
  unfold push
  rw [if_neg (by simp), if_pos rfl]
  cases kept with
  | nil => rfl
  | cons last before =>
      show (if last = [dot, dot] then [dot, dot] :: last :: before else before) =
        if some last = some [dot, dot] then [dot, dot] :: last :: before else before
      by_cases twice : last = [dot, dot]
      · rw [if_pos twice, if_pos (congrArg some twice)]
      · rw [if_neg twice, if_neg (mt Option.some_inj.mp twice)]

theorem isName_of_foldl (free : ∀ name ∈ names, slash ∉ name)
    (are : ∀ name ∈ kept, IsName slash dot name) :
    ∀ name ∈ names.foldl (push dot true) kept, IsName slash dot name := by
  induction names generalizing kept with
  | nil => exact are
  | cons name names ih =>
      rw [List.forall_mem_cons] at free
      refine ih free.2 ?_
      by_cases counts : name = [] ∨ name = [dot]
      · unfold push
        rw [if_pos counts]
        exact are
      · by_cases up : name = [dot, dot]
        · rw [up, push_up, if_neg]
          · exact fun other mem => are other (List.mem_of_mem_tail mem)
          · intro twice
            exact (are _ (List.mem_of_mem_head? twice)).up rfl
        · have is : IsName slash dot name := ⟨not_or.mp counts, up, free.1⟩
          rw [push_name is]
          exact List.forall_mem_cons.mpr ⟨is, are⟩

theorem mem_of_mem_push {other : List α} (mem : other ∈ push dot true kept name) :
    other ∈ kept ∨ other = name := by
  by_cases counts : name = [] ∨ name = [dot]
  · unfold push at mem
    rw [if_pos counts] at mem
    exact .inl mem
  · by_cases up : name = [dot, dot]
    · rw [up, push_up] at mem
      split at mem
      · rw [up, Or.comm]
        exact List.mem_cons.mp mem
      · exact .inl (List.mem_of_mem_tail mem)
    · unfold push at mem
      rw [if_neg counts, if_neg up] at mem
      exact (List.mem_cons.mp mem).symm

theorem mem_of_mem_foldl (mem : name ∈ names.foldl (push dot true) kept) : name ∈ kept ∨ name ∈ names := by
  induction names generalizing kept with
  | nil => exact .inl mem
  | cons first names ih =>
      rcases ih mem with mem | mem
      · rcases mem_of_mem_push mem with mem | rfl
        · exact .inl mem
        · exact .inr List.mem_cons_self
      · exact .inr (List.mem_cons_of_mem _ mem)

/-- From the end of a path: the elements that no double dot after them takes back. -/
def standing (dot : α) : Nat → List (List α) → List (List α)
  | _, [] => []
  | ups, name :: before =>
      if name = [] ∨ name = [dot] then standing dot ups before
      else if name = [dot, dot] then standing dot (ups + 1) before
      else match ups with
        | 0 => name :: standing dot 0 before
        | ups + 1 => standing dot ups before

/-- They are what is kept below the root, and without the last ones when more is taken back. -/
theorem drop_foldl_push (free : ∀ name ∈ names, slash ∉ name) (ups : Nat) :
    (names.foldl (push dot true) []).drop ups = standing dot ups names.reverse := by
  induction names using List.reverseRecOn generalizing ups with
  | nil => cases ups with
    | zero => rfl
    | succ ups => rfl
  | append_singleton names name ih =>
      rw [List.forall_mem_append, List.forall_mem_singleton] at free
      have are := @isName_of_foldl _ _ slash dot _ [] free.1 (List.forall_mem_nil _)
      rw [List.foldl_append, List.foldl_cons, List.foldl_nil, List.reverse_append,
        List.reverse_singleton, List.singleton_append, standing.eq_def]
      dsimp only
      by_cases counts : name = [] ∨ name = [dot]
      · rw [if_pos counts, ← ih free.1]
        unfold push
        rw [if_pos counts]
      · rw [if_neg counts]
        by_cases up : name = [dot, dot]
        · rw [if_pos up, up, push_up, if_neg, ← ih free.1, ← List.drop_one, List.drop_drop]
          · rw [Nat.add_comm]
          · intro twice
            exact (are _ (List.mem_of_mem_head? twice)).up rfl
        · rw [if_neg up, push_name ⟨not_or.mp counts, up, free.2⟩]
          cases ups with
          | zero => rw [← ih free.1, List.drop_zero, List.drop_zero]
          | succ ups =>
              rw [List.drop_succ_cons]
              exact ih free.1 ups

/-! ### Lengths -/

def weight : List (List α) → Nat
  | [] => 0
  | name :: names => name.length + 1 + weight names

omit [DecidableEq α] in
theorem weight_append (names more : List (List α)) :
    weight (names ++ more) = weight names + weight more := by
  induction names with
  | nil => exact (Nat.zero_add _).symm
  | cons name names ih =>
      rw [List.cons_append, weight, weight, ih]
      omega

omit [DecidableEq α] in
theorem weight_reverse (names : List (List α)) : weight names.reverse = weight names := by
  induction names with
  | nil => rfl
  | cons name names ih =>
      rw [List.reverse_cons, weight_append, ih, weight, weight, weight]
      omega

omit [DecidableEq α] in
theorem length_intercalate (full : names ≠ []) :
    ([slash].intercalate names).length + 1 = weight names := by
  induction names with
  | nil => exact absurd rfl full
  | cons name names ih =>
      cases names with
      | nil => simp [weight]
      | cons next names =>
          have rest := ih (List.cons_ne_nil _ _)
          rw [List.intercalate_cons_cons, weight, ← rest]
          simp only [List.length_append, List.length_singleton]
          omega

theorem weight_push_le : weight (push dot true kept name) ≤ name.length + 1 + weight kept := by
  by_cases counts : name = [] ∨ name = [dot]
  · unfold push
    rw [if_pos counts]
    omega
  · by_cases up : name = [dot, dot]
    · rw [up, push_up]
      split
      · exact Nat.le_refl _
      · cases kept with
        | nil => exact Nat.zero_le _
        | cons last before =>
            rw [List.tail_cons, weight]
            omega
    · refine Nat.le_of_eq ?_
      unfold push
      rw [if_neg counts, if_neg up, weight]

theorem weight_foldl_le : weight (names.foldl (push dot true) kept) ≤ weight names + weight kept := by
  induction names generalizing kept with
  | nil => simp [weight]
  | cons name names ih =>
      have one := @weight_push_le α _ dot kept name
      have rest := @ih (push dot true kept name)
      rw [List.foldl_cons, weight]
      omega

theorem length_intercalate_foldl_le (path : List α) :
    ([slash].intercalate ((path.splitOn slash).foldl (push dot true) []).reverse).length ≤
      path.length := by
  by_cases full : ((path.splitOn slash).foldl (push dot true) []).reverse = []
  · rw [full]
    exact Nat.zero_le _
  · have kept := @length_intercalate α slash _ full
    have all := @length_intercalate α slash _ (List.splitOn_ne_nil slash path)
    have le := @weight_foldl_le α _ dot (path.splitOn slash) []
    rw [List.intercalate_splitOn] at all
    rw [weight_reverse] at kept
    rw [weight] at le
    omega

end Names

example : clean '/' '.' "/data//a/./../b.txt".toList = "/data/b.txt".toList := by decide

example : ext '/' '.' "/data/v1.2/a.tar.gz".toList = ".gz".toList := by decide

end SlashPath

/-
What a tool call puts in its path.

The path is the template with the escaped id of each placeholder in its place: an escaped
text has no brace, so nothing of an argument is ever taken for a placeholder, and no slash,
so the segments are those of the template.  An id is the argument, or what is left of it
after the name of the parents, and the parents are the ids that were resolved before.
-/
import Memos.Lib.Fallible
import Memos.Mcp.Adapter

namespace Memos.Mcp

open Find Template

/-! ### Templates of paths -/

/-- A path of the specification: braces only around names, and each name once. -/
structure PathTemplate (pieces : List (Piece UInt8)) : Prop where
  wf : WellFormed openBrace closeBrace pieces
  nodup : (names pieces).Nodup

def written (pieces : List (Piece UInt8)) : Text := render openBrace closeBrace pieces

variable {pieces collection before after : List (Piece UInt8)} {path name value id parents : Text}
  {resolved : List (Text × Text)}

theorem braces_apart : openBrace ≠ closeBrace := by decide

theorem slash_ne_closeBrace : slash ≠ closeBrace := by decide

theorem pathPlaceholderNames_append (free : openBrace ∉ path)
    (wf : WellFormed openBrace closeBrace pieces) :
    pathPlaceholderNames (path ++ written pieces) = names pieces := by
  induction pieces generalizing path with
  | nil =>
      have none : openBrace ∉ path ++ written [] := by
        rw [written, render_nil, List.append_nil]
        exact free
      rw [pathPlaceholderNames]
      split
      · rfl
      next found =>
        rw [index_left_none none] at found
        cases found
  | cons piece pieces ih =>
      cases piece with
      | letter a =>
          have more : openBrace ∉ path ++ [a] := by
            rw [List.mem_append, List.mem_singleton, not_or]
            exact ⟨free, fun same => (wf.letter a List.mem_cons_self).1 same.symm⟩
          have split : path ++ written (.letter a :: pieces) = (path ++ [a]) ++ written pieces := by
            rw [List.append_assoc]
            rfl
          rw [split, ih more wf.of_cons, names_letter]
      | hole name =>
          have plain := wf.name name List.mem_cons_self
          rw [pathPlaceholderNames]
          split
          next none =>
            rw [written, index_left_append free] at none
            cases none
          next start found =>
            rw [written, index_left_append free] at found
            injection found with found
            subst found
            rw [written, drop_text, index_right_hole braces_apart plain.right]
            dsimp only
            rw [hole_slice, hole_rest, names_hole]
            exact congrArg (name :: ·) (@ih [] List.not_mem_nil wf.of_cons)

theorem pathPlaceholderNames_written (wf : WellFormed openBrace closeBrace pieces) :
    pathPlaceholderNames (written pieces) = names pieces :=
  @pathPlaceholderNames_append pieces [] List.not_mem_nil wf

/-! ### The name of the parents -/

def idOf (resolved : List (Text × Text)) (name : Text) : Text := (resolved.lookup name).getD []

/-- One segment, and no braces in it. -/
structure Bare (id : Text) : Prop where
  some : id ≠ []
  plain : id.any isReserved = false

theorem Bare.open_not_mem (bare : Bare id) : openBrace ∉ id := by
  intro mem
  exact List.any_eq_false.mp bare.plain openBrace mem (by decide)

theorem lookup_of_bare (bare : Bare (idOf resolved name)) :
    resolved.lookup name = some (idOf resolved name) := by
  unfold idOf at *
  cases found : resolved.lookup name with
  | none =>
      rw [found] at bare
      exact absurd rfl bare.some
  | some id => rfl

theorem resolvePlaceholders_letters (free : openBrace ∉ path) :
    resolvePlaceholders path resolved = some path := by
  rw [resolvePlaceholders]
  split
  · rfl
  next found =>
    rw [index_left_none free] at found
    cases found

theorem resolvePlaceholders_hole (free : openBrace ∉ path) (plain : closeBrace ∉ name) :
    resolvePlaceholders (path ++ written (.hole name :: pieces)) resolved =
      match resolved.lookup name with
      | none => none
      | some id =>
        if id ≠ [] ∧ id.any isReserved = false then
          resolvePlaceholders (path ++ id ++ written pieces) resolved
        else none := by
  rw [resolvePlaceholders]
  split
  next none =>
    rw [written, index_left_append free] at none
    cases none
  next start found =>
    rw [written, index_left_append free] at found
    injection found with found
    subst found
    rw [written, drop_text, index_right_hole braces_apart plain]
    dsimp only
    rw [hole_slice, hole_rest, take_text]
    rfl

/-- The placeholders are resolved when the id of each is bare, and then they are filled. -/
theorem resolvePlaceholders_eq_some (free : openBrace ∉ path)
    (wf : WellFormed openBrace closeBrace pieces) {result : Text} :
    resolvePlaceholders (path ++ written pieces) resolved = some result ↔
      (∀ name ∈ names pieces, Bare (idOf resolved name)) ∧
        result = path ++ fill (idOf resolved) pieces := by
  induction pieces generalizing path with
  | nil =>
      rw [written, render_nil, fill_nil, List.append_nil, resolvePlaceholders_letters free,
        Option.some_inj, names_nil]
      exact ⟨fun same => ⟨by simp, same.symm⟩, fun same => same.2.symm⟩
  | cons piece pieces ih =>
      cases piece with
      | letter a =>
          have more : openBrace ∉ path ++ [a] := by
            rw [List.mem_append, List.mem_singleton, not_or]
            exact ⟨free, fun same => (wf.letter a List.mem_cons_self).1 same.symm⟩
          have split : path ++ written (.letter a :: pieces) = (path ++ [a]) ++ written pieces := by
            rw [List.append_assoc]
            rfl
          rw [split, ih more wf.of_cons, names_letter, fill_letter, List.append_assoc]
          rfl
      | hole name =>
          have plain := wf.name name List.mem_cons_self
          rw [resolvePlaceholders_hole free plain.right, names_hole, List.forall_mem_cons, fill_hole,
            ← List.append_assoc]
          by_cases bare : Bare (idOf resolved name)
          · have more : openBrace ∉ path ++ idOf resolved name := by
              rw [List.mem_append, not_or]
              exact ⟨free, bare.open_not_mem⟩
            rw [lookup_of_bare bare]
            dsimp only
            rw [if_pos ⟨bare.some, bare.plain⟩, ih more wf.of_cons]
            exact ⟨fun all => ⟨⟨bare, all.1⟩, all.2⟩, fun all => ⟨all.1.2, all.2⟩⟩
          · refine iff_of_false (fun found => bare ?_) fun all => bare all.1.1
            unfold idOf
            split at found
            · cases found
            next id there =>
              split_ifs at found with is
              rw [there]
              exact ⟨is.1, is.2⟩

/-- The canonical name of the parents of a placeholder: what the path has before it, after the
version of the API, with the bare ids of the placeholders there. -/
structure ParentsName (pieces : List (Piece UInt8)) (ids : Text → Text) (name parents : Text) : Prop where
  split : ∃ collection after,
    pieces = letters apiPrefix ++ collection ++ .letter slash :: .hole name :: after ∧
      (∀ other ∈ names collection, Bare (ids other)) ∧
        parents = Trim.trim (fun b => decide (b = slash)) (fill ids collection)
  some : parents ≠ []

theorem apiPrefix_free : openBrace ∉ apiPrefix := by decide

theorem CutPrefix_eq_some {s pre rest : Text} : CutPrefix s pre = some rest ↔ s = pre ++ rest := by
  unfold CutPrefix
  constructor
  · intro h
    split_ifs at h with starts
    injection h with h
    rw [← h]
    exact (List.prefix_iff_eq_append.mp starts).symm
  · intro same
    rw [same, if_pos (List.prefix_append pre rest), List.drop_left]

theorem resolvedResourceNamePrefix_eq_some (wf : WellFormed openBrace closeBrace before) :
    resolvedResourceNamePrefix (written before) resolved = some parents ↔
      ∃ collection, before = letters apiPrefix ++ collection ∧
        (∀ other ∈ names collection, Bare (idOf resolved other)) ∧
          parents = Trim.trim (fun b => decide (b = slash)) (fill (idOf resolved) collection) := by
  unfold resolvedResourceNamePrefix
  constructor
  · intro found
    split at found
    · cases found
    next path cut =>
      rw [CutPrefix_eq_some] at cut
      have starts : apiPrefix <+: written before := cut ▸ List.prefix_append _ _
      obtain ⟨collection, rfl⟩ := eq_letters_append apiPrefix_free starts
      rw [written, render_append, render_letters] at cut
      obtain rfl : written collection = path := List.append_cancel_left cut
      obtain ⟨filled, resolves, rfl⟩ := Option.map_eq_some_iff.mp found
      obtain ⟨bare, rfl⟩ := (@resolvePlaceholders_eq_some collection [] resolved List.not_mem_nil
        wf.of_append.2 filled).mp resolves
      exact ⟨collection, rfl, bare, rfl⟩
  · rintro ⟨collection, split, bare, same⟩
    subst split
    have cut : CutPrefix (written (letters apiPrefix ++ collection)) apiPrefix =
        some (written collection) := by
      rw [CutPrefix_eq_some, written, render_append, render_letters]
      rfl
    rw [cut, same]
    exact Option.map_eq_some_iff.mpr ⟨_, (@resolvePlaceholders_eq_some collection [] resolved
      List.not_mem_nil wf.of_append.2 _).mpr ⟨bare, rfl⟩, rfl⟩

theorem take_written : (written (before ++ after)).take (written before).length = written before := by
  unfold written
  rw [render_append, List.take_left]

theorem index_placeholder (template : PathTemplate (before ++ .letter slash :: .hole name :: after)) :
    index (slash :: marked openBrace closeBrace name)
      (written (before ++ .letter slash :: .hole name :: after)) = some (written before).length :=
  index_letter_hole braces_apart template.wf template.nodup

/-- And one that is not is not. -/
theorem index_placeholder_none (template : PathTemplate (before ++ .hole name :: after))
    (other : before.getLast? ≠ some (.letter slash)) :
    index (slash :: marked openBrace closeBrace name) (written (before ++ .hole name :: after)) = none :=
  index_letter_hole_none braces_apart slash_ne_closeBrace template.wf template.nodup other

/-- An id is what follows the name of the parents, and else it is the argument. -/
theorem trimResourceNamePrefix_cases (template : PathTemplate pieces) (mem : name ∈ names pieces) :
    trimResourceNamePrefix (written pieces) name value resolved = value ∨
      ∃ parents, ParentsName pieces (idOf resolved) name parents ∧
        value = parents ++ slash :: trimResourceNamePrefix (written pieces) name value resolved ∧
          slash ∉ trimResourceNamePrefix (written pieces) name value resolved := by
  by_cases kept : trimResourceNamePrefix (written pieces) name value resolved = value
  · exact .inl kept
  right
  obtain ⟨before, after, rfl⟩ := List.append_of_mem (mem_names.mp mem)
  have ends : before.getLast? = some (.letter slash) := by
    by_contra other
    refine kept ?_
    unfold trimResourceNamePrefix
    dsimp only
    rw [index_placeholder_none template other]
  obtain ⟨before, rfl⟩ := List.getLast?_eq_some_iff.mp ends
  have assoc : before ++ [.letter slash] ++ .hole name :: after =
      before ++ .letter slash :: .hole name :: after := by
    rw [List.append_assoc]
    rfl
  rw [assoc] at kept template ⊢
  generalize result : trimResourceNamePrefix (written (before ++ .letter slash :: .hole name :: after))
    name value resolved = trimmed at kept ⊢
  unfold trimResourceNamePrefix at result
  dsimp only at result
  rw [index_placeholder template] at result
  dsimp only at result
  rw [take_written] at result
  split at result
  · exact absurd result.symm kept
  next parents resolves =>
    split_ifs at result with blank
    · exact absurd result.symm kept
    split at result
    · exact absurd result.symm kept
    next id cut =>
      split_ifs at result with many
      · exact absurd result.symm kept
      subst result
      obtain ⟨collection, split, bare, same⟩ :=
        (resolvedResourceNamePrefix_eq_some template.wf.of_append.1).mp resolves
      rw [not_or, List.contains_iff_mem] at many
      rw [CutPrefix_eq_some, List.append_assoc] at cut
      exact ⟨parents, ⟨⟨collection, after, by rw [split], bare, same⟩, blank⟩, cut, many.2⟩

/-- The canonical name under the parents stands for its last segment. -/
theorem trimResourceNamePrefix_canonical (template : PathTemplate pieces)
    (canonical : ParentsName pieces (idOf resolved) name parents) (some : id ≠ [])
    (bare : slash ∉ id) :
    trimResourceNamePrefix (written pieces) name (parents ++ slash :: id) resolved = id := by
  obtain ⟨⟨collection, after, rfl, all, same⟩, nonempty⟩ := canonical
  have resolves := (resolvedResourceNamePrefix_eq_some template.wf.of_append.1).mpr
    ⟨collection, rfl, all, same⟩
  have cut : CutPrefix (parents ++ slash :: id) (parents ++ [slash]) = Option.some id := by
    rw [CutPrefix_eq_some, List.append_assoc]
    rfl
  have one : ¬(id = [] ∨ id.contains slash = true) := by
    rw [List.contains_iff_mem, not_or]
    exact ⟨some, bare⟩
  unfold trimResourceNamePrefix
  dsimp only
  rw [index_placeholder template]
  dsimp only
  rw [take_written, resolves]
  dsimp only
  rw [if_neg nonempty, cut]
  exact if_neg one

theorem trimResourceNamePrefix_bare (template : PathTemplate pieces) (mem : name ∈ names pieces)
    (bare : slash ∉ value) :
    trimResourceNamePrefix (written pieces) name value resolved = value := by
  obtain kept | ⟨parents, -, same, -⟩ := trimResourceNamePrefix_cases template mem
  · exact kept
  · exact absurd (same ▸ List.mem_append_right _ List.mem_cons_self) bare

/-! ### The loop -/

variable {arguments arguments' : Arguments} {template : Text} {order rest : List Text}

theorem lookup_cons_ne {other : Text} (apart : other ≠ name) :
    List.lookup other ((name, id) :: resolved) = resolved.lookup other := by
  rw [List.lookup_cons, beq_false_of_ne apart]

theorem substitutePlaceholders_append :
    substitutePlaceholders template arguments (order ++ rest) path resolved =
      substitutePlaceholders template arguments rest
        (substitutePlaceholders template arguments order path resolved).1
        (substitutePlaceholders template arguments order path resolved).2 := by
  induction order generalizing path resolved with
  | nil => rfl
  | cons name order ih =>
      rw [List.cons_append, substitutePlaceholders, substitutePlaceholders]
      split
      · exact ih
      · exact ih

theorem substitutePlaceholders_congr
    (same : ∀ name ∈ order, arguments.lookup name = arguments'.lookup name) :
    substitutePlaceholders template arguments order path resolved =
      substitutePlaceholders template arguments' order path resolved := by
  induction order generalizing path resolved with
  | nil => rfl
  | cons name order ih =>
      rw [List.forall_mem_cons] at same
      rw [substitutePlaceholders, substitutePlaceholders, same.1]
      split
      · exact ih same.2
      · exact ih same.2

theorem lookup_substitutePlaceholders (other : name ∉ order) :
    (substitutePlaceholders template arguments order path resolved).2.lookup name =
      resolved.lookup name := by
  induction order generalizing path resolved with
  | nil => rfl
  | cons first order ih =>
      rw [List.mem_cons, not_or] at other
      rw [substitutePlaceholders]
      split
      · exact ih other.2
      · exact (ih other.2).trans (lookup_cons_ne other.1)

/-- The path is the one where each name was replaced by its id. -/
theorem substitutePlaceholders_path (nodup : order.Nodup)
    (given : ∀ name ∈ order, ∃ value, arguments.lookup name = some value) :
    (substitutePlaceholders template arguments order path resolved).1 =
      order.foldl (fun s name => replaceAll (marked openBrace closeBrace name)
        (PathEscape (idOf (substitutePlaceholders template arguments order path resolved).2 name)) s)
        path := by
  induction order generalizing path resolved with
  | nil => rfl
  | cons name order ih =>
      obtain ⟨other, nodup⟩ := List.nodup_cons.mp nodup
      rw [List.forall_mem_cons] at given
      obtain ⟨⟨value, here⟩, given⟩ := given
      have id : idOf (substitutePlaceholders template arguments (name :: order) path resolved).2 name =
          trimResourceNamePrefix template name (valueToString value) resolved := by
        rw [substitutePlaceholders, here]
        dsimp only
        rw [idOf, lookup_substitutePlaceholders other, List.lookup_cons_self]
        rfl
      rw [List.foldl_cons, id, substitutePlaceholders, here]
      exact ih nodup given

/-- An id is resolved among the ids of the placeholders before it. -/
theorem idOf_substitutePlaceholders {argument : Value} (apart : name ∉ rest)
    (here : arguments.lookup name = some argument) :
    idOf (substitutePlaceholders template arguments (order ++ name :: rest) path resolved).2 name =
      trimResourceNamePrefix template name (valueToString argument)
        (substitutePlaceholders template arguments order path resolved).2 := by
  rw [substitutePlaceholders_append, substitutePlaceholders, here]
  dsimp only
  rw [idOf, lookup_substitutePlaceholders apart, List.lookup_cons_self]
  rfl

/-! ### Escaped ids -/

theorem unmarked_PathEscape (id : Text) : Unmarked openBrace closeBrace (PathEscape id) :=
  ⟨fun mem => absurd (Percent.mem_escape mem) (by decide),
    fun mem => absurd (Percent.mem_escape mem) (by decide)⟩

theorem slash_not_mem_PathEscape (id : Text) : slash ∉ PathEscape id := fun mem =>
  absurd (Percent.mem_escape mem) (by decide)

theorem PathUnescape_PathEscape (id : Text) : PathUnescape (PathEscape id) = some id :=
  Percent.unescape_escape (by decide) id

/-! ### What a call puts in the path -/

/-- The last slash parts a name in one way. -/
theorem parted_last {first first' last last' : Text} (one : slash ∉ last) (one' : slash ∉ last')
    (same : first ++ slash :: last = first' ++ slash :: last') : first = first' ∧ last = last' := by
  have reversed := congrArg List.reverse same
  rw [List.reverse_append, List.reverse_append, List.reverse_cons, List.reverse_cons,
    List.append_assoc, List.append_assoc] at reversed
  have ends := name_unique (fun mem => one (List.mem_reverse.mp mem))
    (fun mem => one' (List.mem_reverse.mp mem)) reversed
  obtain rfl := List.reverse_injective ends
  exact ⟨List.append_cancel_right same, rfl⟩

theorem checkPathParameters_ok {parameters : List openAPIParameter}
    (ok : checkPathParameters arguments parameters = .ok ()) {parameter : openAPIParameter}
    (mem : parameter ∈ parameters) (here : parameter.In = text "path") :
    ∃ argument, arguments.lookup parameter.Name = some argument ∧ valueToString argument ≠ [] := by
  induction parameters with
  | nil => cases mem
  | cons first parameters ih =>
      rw [checkPathParameters] at ok
      split_ifs at ok with other
      · obtain same | there := List.mem_cons.mp mem
        · exact absurd (same ▸ here) other
        · exact ih ok there
      · split at ok
        · cases ok
        next argument found =>
          split_ifs at ok with blank
          obtain same | there := List.mem_cons.mp mem
          · rw [not_or] at blank
            exact ⟨argument, same ▸ found, blank.2⟩
          · exact ih ok there

theorem checkPathParameters_cons {parameters : List openAPIParameter}
    (ok : checkPathParameters arguments parameters = .ok ()) (some : value ≠ []) :
    checkPathParameters ((name, .string value) :: arguments) parameters = .ok () := by
  induction parameters with
  | nil => rfl
  | cons first parameters ih =>
      rw [checkPathParameters] at ok ⊢
      split_ifs at ok with other
      · rw [if_pos other]
        exact ih ok
      · rw [if_neg other]
        split at ok
        · cases ok
        next argument found =>
          split_ifs at ok with blank
          by_cases same : first.Name = name
          · have blank : ¬(Value.string value = .null ∨ valueToString (.string value) = []) := by
              rw [not_or]
              exact ⟨by simp, some⟩
            rw [same, List.lookup_cons_self]
            dsimp only
            rw [if_neg blank]
            exact ih ok
          · rw [List.lookup_cons, beq_false_of_ne same]
            dsimp only
            rw [found]
            dsimp only
            rw [if_neg blank]
            exact ih ok

theorem substitutePathParameters_ok {operation : openAPIOperation}
    (ok : substitutePathParameters operation arguments = .ok path) :
    checkPathParameters arguments operation.Parameters = .ok () ∧
      path = (substituted operation arguments).1 := by
  unfold substitutePathParameters at ok
  obtain ⟨_, checked, same⟩ := Fallible.bind_ok.mp ok
  injection same with same
  exact ⟨checked, same.symm⟩

def resolvedIds (operation : openAPIOperation) (arguments : Arguments) : Text → Text :=
  idOf (substituted operation arguments).2

/-- Every placeholder of the path is a declared parameter of it. -/
def Declared (operation : openAPIOperation) (pieces : List (Piece UInt8)) : Prop :=
  ∀ name ∈ names pieces, ∃ parameter ∈ operation.Parameters,
    parameter.In = text "path" ∧ parameter.Name = name

/-- The parents of a placeholder are among the placeholders before it. -/
theorem ParentsName.congr {ids ids' : Text → Text}
    (nodup : (names (before ++ .hole name :: after)).Nodup)
    (same : ∀ other ∈ names before, ids other = ids' other)
    (canonical : ParentsName (before ++ .hole name :: after) ids name parents) :
    ParentsName (before ++ .hole name :: after) ids' name parents := by
  obtain ⟨⟨collection, after', split, bare, eq⟩, some⟩ := canonical
  have ends : letters apiPrefix ++ collection ++ .letter slash :: .hole name :: after' =
      (letters apiPrefix ++ collection ++ [.letter slash]) ++ .hole name :: after' := by
    rw [List.append_assoc _ [_]]
    rfl
  have place := hole_unique nodup (split.trans ends)
  have within (other : Text) (mem : other ∈ names collection) : ids other = ids' other := by
    refine same other ?_
    rw [place, names_append, names_append]
    exact List.mem_append_left _ (List.mem_append_right _ mem)
  refine ⟨⟨collection, after', split, fun other mem => ?_, ?_⟩, some⟩
  · rw [← within other mem]
    exact bare other mem
  · rw [eq, fill_congr within]

def idsBefore (operation : openAPIOperation) (arguments : Arguments) (before : List (Piece UInt8)) :
    List (Text × Text) :=
  (substitutePlaceholders operation.Path arguments (names before) operation.Path []).2

section Call

variable {operation : openAPIOperation}

theorem substituted_eq (template : PathTemplate pieces) (written_eq : operation.Path = written pieces)
    (arguments : Arguments) : substituted operation arguments =
      substitutePlaceholders operation.Path arguments (names pieces) operation.Path [] := by
  rw [substituted, written_eq, pathPlaceholderNames_written template.wf]

theorem resolvedIds_of_before (template : PathTemplate (before ++ .hole name :: after))
    (written_eq : operation.Path = written (before ++ .hole name :: after)) {other : Text}
    (mem : other ∈ names before) :
    idOf (idsBefore operation arguments before) other = resolvedIds operation arguments other := by
  have nodup := template.nodup
  rw [names_append, names_hole, List.nodup_append] at nodup
  have later : other ∉ name :: names after := fun there => nodup.2.2 other mem other there rfl
  rw [resolvedIds, substituted_eq template written_eq, names_append, names_hole,
    substitutePlaceholders_append, idOf, idOf, lookup_substitutePlaceholders later]
  rfl

theorem resolvedIds_eq_trim (template : PathTemplate (before ++ .hole name :: after))
    (written_eq : operation.Path = written (before ++ .hole name :: after)) {argument : Value}
    (here : arguments.lookup name = some argument) :
    resolvedIds operation arguments name =
      trimResourceNamePrefix (written (before ++ .hole name :: after)) name (valueToString argument)
        (idsBefore operation arguments before) := by
  have nodup := template.nodup
  rw [names_append, names_hole, List.nodup_append] at nodup
  rw [resolvedIds, substituted_eq template written_eq, names_append, names_hole,
    idOf_substitutePlaceholders (List.nodup_cons.mp nodup.2.1).1 here, ← written_eq]
  rfl

theorem ParentsName_idsBefore_iff (template : PathTemplate (before ++ .hole name :: after))
    (written_eq : operation.Path = written (before ++ .hole name :: after)) :
    ParentsName (before ++ .hole name :: after) (idOf (idsBefore operation arguments before)) name
        parents ↔
      ParentsName (before ++ .hole name :: after) (resolvedIds operation arguments) name parents :=
  ⟨ParentsName.congr template.nodup fun _ mem => resolvedIds_of_before template written_eq mem,
    ParentsName.congr template.nodup fun _ mem => (resolvedIds_of_before template written_eq mem).symm⟩

theorem substituted_cons (template : PathTemplate (before ++ .hole name :: after))
    (written_eq : operation.Path = written (before ++ .hole name :: after)) {argument : Value}
    (here : arguments.lookup name = some argument)
    (same : trimResourceNamePrefix (written (before ++ .hole name :: after)) name value
      (idsBefore operation arguments before) = resolvedIds operation arguments name) :
    substituted operation ((name, .string value) :: arguments) = substituted operation arguments := by
  have nodup := template.nodup
  rw [names_append, names_hole, List.nodup_append] at nodup
  have other {order : List Text} (free : name ∉ order) : ∀ other ∈ order,
      ((name, Value.string value) :: arguments).lookup other = arguments.lookup other := by
    intro other mem
    have apart : other ≠ name := fun eq => free (eq ▸ mem)
    rw [List.lookup_cons, beq_false_of_ne apart]
  have first : name ∉ names before := fun mem =>
    nodup.2.2 name mem name List.mem_cons_self rfl
  rw [resolvedIds_eq_trim template written_eq here, ← written_eq, idsBefore] at same
  rw [substituted_eq template written_eq, substituted_eq template written_eq, names_append, names_hole,
    substitutePlaceholders_append, substitutePlaceholders_append,
    substitutePlaceholders_congr (other first), substitutePlaceholders, List.lookup_cons_self,
    substitutePlaceholders, here]
  dsimp only
  rw [substitutePlaceholders_congr (other (List.nodup_cons.mp nodup.2.1).1), valueToString, same]

structure Substituted (operation : openAPIOperation) (pieces : List (Piece UInt8))
    (arguments : Arguments) (ids : Text → Text) (path : Text) : Prop where
  /-- Nothing of an argument is taken for a placeholder. -/
  filled : path = fill (fun name => PathEscape (ids name)) pieces
  segments : path.splitOn slash =
    (pieces.splitOn (.letter slash)).map (fill fun name => PathEscape (ids name))
  decodes : ∀ name, PathUnescape (PathEscape (ids name)) = some (ids name)
  /-- Only under the resolved parents is a name shortened to its last segment. -/
  kept : ∀ name ∈ names pieces, ∀ argument, arguments.lookup name = some argument →
    ∀ other last, valueToString argument = other ++ slash :: last → slash ∉ last →
      ¬ParentsName pieces ids name other → ids name = valueToString argument
  canonical : ∀ name ∈ names pieces, ∀ argument, arguments.lookup name = some argument →
    slash ∉ valueToString argument → ids name = valueToString argument ∧
      ∀ parents, ParentsName pieces ids name parents →
        substitutePathParameters operation
          ((name, .string (parents ++ slash :: valueToString argument)) :: arguments) = .ok path

/-- **A call that is accepted acts on the resources that it names.** -/
theorem substitutePathParameters_substituted (operation : openAPIOperation)
    (pieces : List (Piece UInt8)) (arguments : Arguments) (path : Text)
    (template : PathTemplate pieces) (written_eq : operation.Path = written pieces)
    (declared : Declared operation pieces)
    (ok : substitutePathParameters operation arguments = .ok path) :
    Substituted operation pieces arguments (resolvedIds operation arguments) path := by
  obtain ⟨checked, path_eq⟩ := substitutePathParameters_ok ok
  have given (name : Text) (mem : name ∈ names pieces) :
      ∃ argument, arguments.lookup name = some argument ∧ valueToString argument ≠ [] := by
    obtain ⟨parameter, there, isPath, same⟩ := declared name mem
    exact same ▸ checkPathParameters_ok checked there isPath
  have filled : path = fill (fun name => PathEscape (resolvedIds operation arguments name)) pieces := by
    rw [path_eq, substituted_eq template written_eq,
      substitutePlaceholders_path template.nodup fun name mem => (given name mem).imp fun _ => And.left,
      ← substituted_eq template written_eq, written_eq]
    exact foldl_replaceAll_render braces_apart template.wf (fun name mem => mem) fun name mem =>
      ⟨template.wf.name name (mem_names.mp mem), unmarked_PathEscape _⟩
  refine ⟨filled, ?_, fun name => PathUnescape_PathEscape _, ?_, ?_⟩
  · rw [filled]
    exact splitOn_fill fun name _ => slash_not_mem_PathEscape _
  · intro name mem argument here other last same one foreign
    obtain ⟨before, after, rfl⟩ := List.append_of_mem (mem_names.mp mem)
    have id := resolvedIds_eq_trim template written_eq here
    obtain kept | ⟨parents, canonical, split, single⟩ :=
      @trimResourceNamePrefix_cases _ name (valueToString argument)
        (idsBefore operation arguments before) template mem
    · rw [id, kept]
    · rw [← id] at split single
      rw [ParentsName_idsBefore_iff template written_eq] at canonical
      have parted := same.symm.trans split
      rw [(parted_last one single parted).1] at foreign
      exact absurd canonical foreign
  · intro name mem argument here bare
    obtain ⟨before, after, rfl⟩ := List.append_of_mem (mem_names.mp mem)
    have id := resolvedIds_eq_trim template written_eq here
    rw [trimResourceNamePrefix_bare template mem bare] at id
    refine ⟨id, fun parents canonical => ?_⟩
    obtain ⟨argument', here', some⟩ := given name mem
    rw [here] at here'
    injection here' with same
    subst same
    rw [← ParentsName_idsBefore_iff template written_eq] at canonical
    have trims := trimResourceNamePrefix_canonical template canonical some bare
    have checked := @checkPathParameters_cons name _ arguments operation.Parameters checked
      (List.append_ne_nil_of_right_ne_nil parents (List.cons_ne_nil slash (valueToString argument)))
    unfold substitutePathParameters
    rw [checked, Fallible.ok_bind, substituted_cons template written_eq here (trims.trans id.symm),
      path_eq]

def reactionPath : List (Piece UInt8) :=
  letters (text "/api/v1/memos/") ++ .hole (text "memo") :: letters (text "/reactions/") ++
    [.hole (text "reaction")]

def deleteReaction : openAPIOperation where
  Parameters := [⟨text "memo", text "path"⟩, ⟨text "reaction", text "path"⟩]
  Path := text "/api/v1/memos/\x7bmemo\x7d/reactions/\x7breaction\x7d"

theorem reactionPath_template : PathTemplate reactionPath where
  wf := by
    refine ⟨fun a mem => ?_, fun name mem => ?_⟩
    · have all : ∀ piece ∈ reactionPath, piece ≠ .letter openBrace ∧ piece ≠ .letter closeBrace := by
        decide
      exact ⟨fun same => (all _ mem).1 (same ▸ rfl), fun same => (all _ mem).2 (same ▸ rfl)⟩
    · have all : ∀ name ∈ names reactionPath, openBrace ∉ name ∧ closeBrace ∉ name := by decide
      exact ⟨(all name (mem_names.mpr mem)).1, (all name (mem_names.mpr mem)).2⟩
  nodup := by decide

/-- The canonical name of a reaction, under the memo that it names. -/
theorem substitutePathParameters_reaction :
    let arguments := [(text "memo", Value.string (text "memos/abc")),
      (text "reaction", Value.string (text "memos/abc/reactions/r1"))]
    Substituted deleteReaction reactionPath arguments (resolvedIds deleteReaction arguments)
      (text "/api/v1/memos/abc/reactions/r1") :=
  substitutePathParameters_substituted deleteReaction reactionPath _ _ reactionPath_template
    (by decide) (by unfold Declared; decide) (by decide +kernel)

/-- The id of a parent may have a brace, and then the canonical name under it is taken for an id. -/
theorem braced_parent_refused :
    let memo := (text "memo", Value.string (text "a\x7bb"))
    substitutePathParameters deleteReaction [memo, (text "reaction", .string (text "r"))] =
        .ok (text "/api/v1/memos/a%7Bb/reactions/r") ∧
      substitutePathParameters deleteReaction
          [memo, (text "reaction", .string (text "memos/a\x7bb/reactions/r"))] =
        .ok (text "/api/v1/memos/a%7Bb/reactions/memos%2Fa%7Bb%2Freactions%2Fr") := by
  decide +kernel

end Call

end Memos.Mcp

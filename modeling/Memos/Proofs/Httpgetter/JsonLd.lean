/-
When the metadata of a page do not depend on the order of its members.

The first candidate of the best score is taken.  Which one that is depends on the order in
which the members of an object are visited, as soon as two members hold candidates of that
score.  The candidates that some order visits first can be read off the document, and the
metadata are always the same exactly when these are all the same.
-/
import Memos.Httpgetter.JsonLd

namespace Memos.Httpgetter

variable {parse : String → Option URL} {toLower : Char → Char}

/-! ### Documents -/

/-- A property of the leaves that passes from the parts of a value to the value. -/
structure Inductive (P : Json → Prop) : Prop where
  null : P .null
  bool : ∀ value, P (.bool value)
  number : ∀ value, P (.number value)
  string : ∀ text, P (.string text)
  array : ∀ items, (∀ item ∈ items, P item) → P (.array items)
  object : ∀ members : List (String × Json), (∀ entry ∈ members, P entry.2) → P (.object members)

mutual

theorem Inductive.all {P : Json → Prop} (steps : Inductive P) : (value : Json) → P value
  | .null => steps.null
  | .bool value => steps.bool value
  | .number value => steps.number value
  | .string text => steps.string text
  | .array items => steps.array items (steps.items items)
  | .object members => steps.object members (steps.members members)

theorem Inductive.items {P : Json → Prop} (steps : Inductive P) :
    (items : List Json) → ∀ item ∈ items, P item
  | [] => by simp
  | item :: items => List.forall_mem_cons.mpr ⟨steps.all item, steps.items items⟩

theorem Inductive.members {P : Json → Prop} (steps : Inductive P) :
    (members : List (String × Json)) → ∀ entry ∈ members, P entry.2
  | [] => by simp
  | (_, value) :: members => List.forall_mem_cons.mpr ⟨steps.all value, steps.members members⟩

end

/-! ### The candidates that may come first -/

section Firsts

variable (parse toLower) (score : Int)

def scored (object : Object) : Option metadataSource :=
  if candidateOf parse object ≠ .empty ∧ scoreOf toLower object (candidateOf parse object) = score then
    some (candidateOf parse object)
  else none

def leading (visited : List Object) : Option metadataSource :=
  visited.findSome? (scored parse toLower score)

mutual

/-- The candidates of the score that are the first ones in some order.  Items are visited in
their order, an object before its members, and any of the members may be the first. -/
def firsts : Json → List metadataSource
  | .array items => firstsAll items
  | .object members =>
    match scored parse toLower score members with
    | some candidate => [candidate]
    | none => firstsAny members
  | _ => []

def firstsAll : List Json → List metadataSource
  | [] => []
  | item :: items => if firsts item = [] then firstsAll items else firsts item

def firstsAny : List (String × Json) → List metadataSource
  | [] => []
  | (_, value) :: members => firsts value ++ firstsAny members

end

end Firsts

section Walks

variable {score : Int} {value : Json} {values : List Json} {visited : List Object}
  {candidate : metadataSource}

theorem mem_firstsAny {members : List (String × Json)} :
    candidate ∈ firstsAny parse toLower score members ↔
      ∃ entry ∈ members, candidate ∈ firsts parse toLower score entry.2 := by
  induction members with
  | nil => simp [firstsAny]
  | cons entry members ih =>
      obtain ⟨key, value⟩ := entry
      rw [firstsAny, List.mem_append, ih]
      simp

theorem firstsAll_eq_nil :
    firstsAll parse toLower score values = [] ↔ ∀ value ∈ values, firsts parse toLower score value = [] := by
  induction values with
  | nil => simp [firstsAll]
  | cons value values ih =>
      rw [firstsAll, List.forall_mem_cons]
      split_ifs with none
      · rw [ih]
        exact ⟨fun all => ⟨none, all⟩, And.right⟩
      · exact ⟨fun same => absurd same none, And.left⟩

theorem firstsAny_eq_nil {members : List (String × Json)} :
    firstsAny parse toLower score members = [] ↔
      ∀ entry ∈ members, firsts parse toLower score entry.2 = [] := by
  simp only [List.eq_nil_iff_forall_not_mem, mem_firstsAny, not_exists, not_and]
  exact ⟨fun none entry mem candidate => none candidate entry mem,
    fun none candidate entry mem => none entry mem candidate⟩

theorem of_mem_firstsAll (mem : candidate ∈ firstsAll parse toLower score values) :
    ∃ value ∈ values, candidate ∈ firsts parse toLower score value := by
  induction values with
  | nil => cases mem
  | cons value values ih =>
      rw [firstsAll] at mem
      split_ifs at mem with none
      · obtain ⟨other, there, mem⟩ := ih mem
        exact ⟨other, List.mem_cons_of_mem _ there, mem⟩
      · exact ⟨value, List.mem_cons_self, mem⟩

/-- What the visits of a value say about its candidates of the score. -/
structure Leads (parse : String → Option URL) (toLower : Char → Char) (score : Int)
    (candidates : List metadataSource) (visited : List Object) : Prop where
  none : leading parse toLower score visited = none ↔ candidates = []
  mem : ∀ candidate, leading parse toLower score visited = some candidate → candidate ∈ candidates

theorem leading_append {others : List Object} :
    leading parse toLower score (visited ++ others) =
      (leading parse toLower score visited).or (leading parse toLower score others) :=
  List.findSome?_append

theorem WalkAll.leads
    (leads : ∀ value ∈ values, ∀ visited, WalkJSONLD value visited →
      Leads parse toLower score (firsts parse toLower score value) visited)
    (walk : WalkAll values visited) :
    Leads parse toLower score (firstsAll parse toLower score values) visited := by
  induction values generalizing visited with
  | nil =>
      cases walk
      exact ⟨iff_of_true rfl rfl, fun _ found => by cases found⟩
  | cons value values ih =>
      rw [List.forall_mem_cons] at leads
      obtain _ | ⟨here, rest⟩ := walk
      have first := leads.1 _ here
      have others := ih leads.2 rest
      rw [firstsAll]
      split_ifs with nil
      · have none := first.none.mpr nil
        refine ⟨?_, fun candidate found => ?_⟩
        · rw [leading_append, none, Option.none_or]
          exact others.none
        · rw [leading_append, none, Option.none_or] at found
          exact others.mem candidate found
      · obtain ⟨winner, found⟩ := Option.ne_none_iff_exists'.mp (mt first.none.mp nil)
        refine ⟨?_, fun candidate same => ?_⟩
        · rw [leading_append, found, Option.some_or]
          exact iff_of_false (by simp) nil
        · rw [leading_append, found, Option.some_or] at same
          exact first.mem candidate (found.trans same)

theorem leads_of_perm {members order : List (String × Json)} (perm : order.Perm members)
    (leads : Leads parse toLower score (firstsAll parse toLower score (order.map Prod.snd)) visited) :
    Leads parse toLower score (firstsAny parse toLower score members) visited := by
  refine ⟨?_, fun candidate found => ?_⟩
  · rw [leads.none, firstsAll_eq_nil, firstsAny_eq_nil]
    simp only [List.forall_mem_map, perm.mem_iff]
  · obtain ⟨value, there, mem⟩ := of_mem_firstsAll (leads.mem candidate found)
    obtain ⟨entry, inOrder, rfl⟩ := List.mem_map.mp there
    exact mem_firstsAny.mpr ⟨entry, perm.mem_iff.mp inOrder, mem⟩

/-- Whatever the order, the first candidate of the score is among those that may be. -/
theorem walk_leads : ∀ value visited, WalkJSONLD value visited →
    Leads parse toLower score (firsts parse toLower score value) visited := by
  refine Inductive.all ⟨?_, ?_, ?_, ?_, ?_, ?_⟩
  · intro visited walk
    cases walk
    exact ⟨iff_of_true rfl rfl, fun _ found => by cases found⟩
  · intro value visited walk
    cases walk
    exact ⟨iff_of_true rfl rfl, fun _ found => by cases found⟩
  · intro value visited walk
    cases walk
    exact ⟨iff_of_true rfl rfl, fun _ found => by cases found⟩
  · intro text visited walk
    cases walk
    exact ⟨iff_of_true rfl rfl, fun _ found => by cases found⟩
  · intro items ih visited walk
    cases walk with
    | array walk => exact walk.leads ih
  · intro members ih visited walk
    cases walk with
    | @object _ order visited perm walk =>
        rw [firsts]
        cases own : scored parse toLower score members with
        | some candidate =>
            have found : leading parse toLower score (members :: visited) = some candidate := by
              rw [leading, List.findSome?_cons, own]
            refine ⟨?_, fun other same => ?_⟩
            · rw [found]
              exact iff_of_false (by simp) (List.cons_ne_nil _ _)
            · rw [found, Option.some_inj] at same
              exact same ▸ List.mem_singleton_self candidate
        | none =>
            have next : leading parse toLower score (members :: visited) =
                leading parse toLower score visited := by
              rw [leading, List.findSome?_cons, own]
              rfl
            have inner := leads_of_perm perm <| walk.leads fun value mem => by
              obtain ⟨entry, inOrder, rfl⟩ := List.mem_map.mp mem
              exact ih entry (perm.mem_iff.mp inOrder)
            refine ⟨?_, fun candidate found => ?_⟩
            · rw [next]
              exact inner.none
            · rw [next] at found
              exact inner.mem candidate found

theorem walkAll_leads (walk : WalkAll values visited) :
    Leads parse toLower score (firstsAll parse toLower score values) visited :=
  walk.leads fun value _ visited walk => walk_leads value visited walk

/-! ### Orders that bring a candidate to the front -/

theorem exists_walkAll (exists_walk : ∀ value ∈ values, ∃ visited, WalkJSONLD value visited) :
    ∃ visited, WalkAll values visited := by
  induction values with
  | nil => exact ⟨[], .nil⟩
  | cons value values ih =>
      rw [List.forall_mem_cons] at exists_walk
      obtain ⟨visited, walk⟩ := exists_walk.1
      obtain ⟨others, rest⟩ := ih exists_walk.2
      exact ⟨visited ++ others, .cons walk rest⟩

theorem exists_walk : ∀ value, ∃ visited, WalkJSONLD value visited := by
  refine Inductive.all ⟨⟨[], .null⟩, fun value => ⟨[], .bool value⟩, fun value => ⟨[], .number value⟩,
    fun text => ⟨[], .string text⟩, fun items ih => ?_, fun members ih => ?_⟩
  · obtain ⟨visited, walk⟩ := exists_walkAll ih
    exact ⟨visited, .array walk⟩
  · obtain ⟨visited, walk⟩ := @exists_walkAll (members.map Prod.snd) fun value mem => by
      obtain ⟨entry, there, rfl⟩ := List.mem_map.mp mem
      exact ih entry there
    exact ⟨members :: visited, .object (List.Perm.refl members) walk⟩

theorem walkAll_exists (values : List Json) : ∃ visited, WalkAll values visited :=
  exists_walkAll fun value _ => exists_walk value

/-- Some order visits the candidate first. -/
def Reaches (parse : String → Option URL) (toLower : Char → Char) (score : Int) (value : Json) : Prop :=
  ∀ candidate ∈ firsts parse toLower score value, ∃ visited, WalkJSONLD value visited ∧
    leading parse toLower score visited = some candidate

theorem walkAll_reaches (reaches : ∀ value ∈ values, Reaches parse toLower score value)
    (mem : candidate ∈ firstsAll parse toLower score values) :
    ∃ visited, WalkAll values visited ∧ leading parse toLower score visited = some candidate := by
  induction values with
  | nil => cases mem
  | cons value values ih =>
      rw [List.forall_mem_cons] at reaches
      rw [firstsAll] at mem
      split_ifs at mem with none
      · obtain ⟨visited, walk⟩ := exists_walk value
        obtain ⟨others, rest, found⟩ := ih reaches.2 mem
        refine ⟨visited ++ others, .cons walk rest, ?_⟩
        rw [leading_append, (walk_leads value visited walk).none.mpr none, Option.none_or, found]
      · obtain ⟨visited, walk, found⟩ := reaches.1 candidate mem
        obtain ⟨others, rest⟩ := walkAll_exists values
        refine ⟨visited ++ others, .cons walk rest, ?_⟩
        rw [leading_append, found, Option.some_or]

theorem reaches : ∀ value, Reaches parse toLower score value := by
  refine Inductive.all ⟨?_, ?_, ?_, ?_, ?_, ?_⟩
  · intro candidate mem
    cases mem
  · intro value candidate mem
    cases mem
  · intro value candidate mem
    cases mem
  · intro text candidate mem
    cases mem
  · intro items ih candidate mem
    obtain ⟨visited, walk, found⟩ := walkAll_reaches ih mem
    exact ⟨visited, .array walk, found⟩
  · intro members ih candidate mem
    rw [firsts] at mem
    cases own : scored parse toLower score members with
    | some winner =>
        rw [own] at mem
        obtain ⟨visited, walk⟩ := walkAll_exists (members.map Prod.snd)
        refine ⟨members :: visited, .object (List.Perm.refl members) walk, ?_⟩
        rw [leading, List.findSome?_cons, own, List.mem_singleton.mp mem]
    | none =>
        rw [own] at mem
        obtain ⟨entry, there, inner⟩ := mem_firstsAny.mp mem
        obtain ⟨visited, walk, found⟩ := ih entry there candidate inner
        obtain ⟨before, after, rfl⟩ := List.append_of_mem there
        obtain ⟨others, rest⟩ := walkAll_exists ((before ++ after).map Prod.snd)
        refine ⟨_ :: (visited ++ others), .object List.perm_middle.symm (.cons walk rest), ?_⟩
        rw [leading, List.findSome?_cons, own]
        exact (leading_append).trans (by rw [found, Option.some_or])

end Walks

/-! ### The best candidate -/

section Best

variable {visited : List Object} {candidate : metadataSource} {score : Int}

def Candidate (parse : String → Option URL) (toLower : Char → Char) (visited : List Object)
    (candidate : metadataSource) (score : Int) : Prop :=
  ∃ object ∈ visited, candidateOf parse object = candidate ∧ candidate ≠ .empty ∧
    scoreOf toLower object candidate = score

theorem scored_eq_some {object : Object} : scored parse toLower score object = some candidate ↔
    candidateOf parse object = candidate ∧ candidate ≠ .empty ∧
      scoreOf toLower object candidate = score := by
  unfold scored
  constructor
  · intro h
    split_ifs at h with ok
    injection h with h
    subst h
    exact ⟨rfl, ok⟩
  · rintro ⟨rfl, ok⟩
    exact if_pos ok

theorem scored_of_blank {object : Object} (blank : candidateOf parse object = .empty) :
    scored parse toLower score object = none := if_neg fun is => is.1 blank

theorem scored_of_ne {object : Object}
    (ne : scoreOf toLower object (candidateOf parse object) ≠ score) :
    scored parse toLower score object = none := if_neg fun is => ne is.2

theorem candidate_of_leading (found : leading parse toLower score visited = some candidate) :
    Candidate parse toLower visited candidate score := by
  obtain ⟨before, object, after, rfl, here, -⟩ := List.findSome?_eq_some_iff.mp found
  exact ⟨object, List.mem_append_right _ List.mem_cons_self, scored_eq_some.mp here⟩

theorem leading_eq_none : leading parse toLower score visited = none ↔
    ∀ candidate, ¬Candidate parse toLower visited candidate score := by
  rw [leading, List.findSome?_eq_none_iff]
  constructor
  · rintro none candidate ⟨object, mem, is⟩
    have here := none object mem
    rw [scored_eq_some.mpr is] at here
    cases here
  · intro none object mem
    cases found : scored parse toLower score object with
    | none => rfl
    | some candidate => exact absurd ⟨object, mem, scored_eq_some.mp found⟩ (none candidate)

/-- What some visits make of the best candidate so far. -/
inductive Improved (parse : String → Option URL) (toLower : Char → Char) (visited : List Object)
    (start : metadataSource × Int) : metadataSource × Int → Prop
  | same (none : ∀ score, start.2 < score → leading parse toLower score visited = none) :
      Improved parse toLower visited start start
  | better {candidate : metadataSource} {score : Int} (lt : start.2 < score)
      (found : leading parse toLower score visited = some candidate)
      (none : ∀ higher, score < higher → leading parse toLower higher visited = none) :
      Improved parse toLower visited start (candidate, score)

theorem leading_cons_none {object : Object} (none : scored parse toLower score object = none) :
    leading parse toLower score (object :: visited) = leading parse toLower score visited := by
  rw [leading, List.findSome?_cons, none]
  rfl

theorem Improved.cons {object : Object} {start result : metadataSource × Int}
    (none : ∀ score, start.2 < score → scored parse toLower score object = none)
    (improved : Improved parse toLower visited start result) :
    Improved parse toLower (object :: visited) start result := by
  cases improved with
  | same all =>
      exact .same fun score lt => (leading_cons_none (none score lt)).trans (all score lt)
  | better lt found all =>
      refine .better lt ((leading_cons_none (none _ lt)).trans found) fun higher beyond => ?_
      exact (leading_cons_none (none higher (Int.lt_trans lt beyond))).trans (all higher beyond)

theorem Improved.cons_better {object : Object} {start result : metadataSource × Int}
    (here : scored parse toLower score object = some candidate) (lt : start.2 < score)
    (improved : Improved parse toLower visited (candidate, score) result) :
    Improved parse toLower (object :: visited) start result := by
  have none (higher : Int) (beyond : score < higher) : scored parse toLower higher object = none := by
    obtain ⟨rfl, -, own⟩ := scored_eq_some.mp here
    exact scored_of_ne (by omega)
  cases improved with
  | same all =>
      refine .better lt ?_ fun higher beyond => (leading_cons_none (none higher beyond)).trans (all higher beyond)
      rw [leading, List.findSome?_cons, here]
  | better beyond found all =>
      refine .better (Int.lt_trans lt beyond) ((leading_cons_none (none _ beyond)).trans found) fun higher above => ?_
      exact (leading_cons_none (none higher (Int.lt_trans beyond above))).trans (all higher above)

theorem foldl_visit (start : metadataSource × Int) :
    Improved parse toLower visited start (visited.foldl (visit parse toLower) start) := by
  induction visited generalizing start with
  | nil => exact .same fun _ _ => rfl
  | cons object visited ih =>
      rw [List.foldl_cons, visit]
      dsimp only
      by_cases blank : candidateOf parse object = .empty
      · rw [if_pos blank]
        exact (ih start).cons fun score _ => scored_of_blank blank
      · rw [if_neg blank]
        by_cases lt : start.2 < scoreOf toLower object (candidateOf parse object)
        · rw [if_pos lt]
          exact (ih _).cons_better (scored_eq_some.mpr ⟨rfl, blank, rfl⟩) lt
        · rw [if_neg lt]
          exact (ih start).cons fun score beyond => scored_of_ne (by omega)

/-- The best candidate is the first one of the highest score that is not negative. -/
theorem best_cases :
    (best parse toLower visited = .empty ∧ ∀ score, 0 ≤ score →
        leading parse toLower score visited = none) ∨
      ∃ score, 0 ≤ score ∧ leading parse toLower score visited = some (best parse toLower visited) ∧
        ∀ higher, score < higher → leading parse toLower higher visited = none := by
  have improved := @foldl_visit parse toLower visited (.empty, -1)
  unfold best
  generalize visited.foldl (visit parse toLower) (.empty, -1) = result at improved
  cases improved with
  | same none => exact .inl ⟨rfl, fun score le => none score (by omega)⟩
  | better lt found none => exact .inr ⟨_, by omega, found, none⟩

theorem best_eq_of_leading (le : 0 ≤ score)
    (found : leading parse toLower score visited = some candidate)
    (none : ∀ higher, score < higher → leading parse toLower higher visited = none) :
    best parse toLower visited = candidate := by
  obtain ⟨-, all⟩ | ⟨top, le', found', none'⟩ := @best_cases parse toLower visited
  · rw [all score le] at found
    cases found
  · have below : ¬score < top := fun lt => by
      rw [none top lt] at found'
      cases found'
    have above : ¬top < score := fun lt => by
      rw [none' score lt] at found
      cases found
    obtain rfl : score = top := by omega
    exact Option.some.inj (found'.symm.trans found)

end Best

/-! ### Pages -/

/-- The metadata are a candidate of the highest score, which is not negative, or empty when there
is none. -/
def IsBest (parse : String → Option URL) (toLower : Char → Char) (visited : List Object)
    (metadata : metadataSource) : Prop :=
  (∃ score, 0 ≤ score ∧ Candidate parse toLower visited metadata score ∧
      ∀ other higher, Candidate parse toLower visited other higher → higher ≤ score) ∨
    metadata = .empty ∧ ∀ other score, Candidate parse toLower visited other score → score < 0

theorem isBest_best (visited : List Object) :
    IsBest parse toLower visited (best parse toLower visited) := by
  obtain ⟨empty, none⟩ | ⟨score, le, found, none⟩ := @best_cases parse toLower visited
  · refine .inr ⟨empty, fun other score candidate => ?_⟩
    by_contra notNegative
    exact leading_eq_none.mp (none score (by omega)) other candidate
  · refine .inl ⟨score, le, candidate_of_leading found, fun other higher candidate => ?_⟩
    by_contra beyond
    exact leading_eq_none.mp (none higher (by omega)) other candidate

/-- Whatever order the members are visited in, the metadata are the same, and the best ones. -/
structure Stable (parse : String → Option URL) (toLower : Char → Char)
    (decode : String → Option Json) (scripts : List String) : Prop where
  same : ∀ metadata metadata', ExtractJSONLDMetadata parse toLower decode scripts metadata →
    ExtractJSONLDMetadata parse toLower decode scripts metadata' → metadata = metadata'
  best : ∀ visited, WalkAll (scripts.filterMap decode) visited →
    IsBest parse toLower visited (Httpgetter.best parse toLower visited)

/-- The candidates of the highest score that some order visits first are all the same. -/
def Settled (parse : String → Option URL) (toLower : Char → Char) (values : List Json) : Prop :=
  ∀ score, 0 ≤ score → (∀ higher, score < higher → firstsAll parse toLower higher values = []) →
    ∀ candidate ∈ firstsAll parse toLower score values,
      ∀ candidate' ∈ firstsAll parse toLower score values, candidate = candidate'

/-- **The metadata do not depend on the order exactly when the best candidates that may come first
are the same.** -/
theorem ExtractJSONLDMetadata_stable_iff (parse : String → Option URL) (toLower : Char → Char)
    (decode : String → Option Json) (scripts : List String) :
    Stable parse toLower decode scripts ↔ Settled parse toLower (scripts.filterMap decode) := by
  generalize docs_eq : scripts.filterMap decode = values
  have lead {visited : List Object} (walk : WalkAll values visited) (score : Int) :=
    @walkAll_leads parse toLower score values visited walk
  constructor
  · intro stable score le none candidate mem candidate' mem'
    have extracts (winner : metadataSource) (may : winner ∈ firstsAll parse toLower score values) :
        ExtractJSONLDMetadata parse toLower decode scripts winner := by
      obtain ⟨visited, walk, found⟩ := walkAll_reaches (fun value _ => reaches value) may
      refine ⟨visited, docs_eq ▸ walk, (best_eq_of_leading le found fun higher lt => ?_).symm⟩
      exact (lead walk higher).none.mpr (none higher lt)
    exact stable.same _ _ (extracts candidate mem) (extracts candidate' mem')
  · intro settled
    refine ⟨?_, fun visited _ => isBest_best visited⟩
    rintro _ _ ⟨visited, walk, rfl⟩ ⟨visited', walk', rfl⟩
    rw [docs_eq] at walk walk'
    have apart {visited visited' : List Object} (walk : WalkAll values visited)
        (walk' : WalkAll values visited') {score : Int}
        (found : leading parse toLower score visited = none) :
        leading parse toLower score visited' = none :=
      (lead walk' score).none.mpr ((lead walk score).none.mp found)
    obtain ⟨empty, none⟩ | ⟨score, le, found, none⟩ := @best_cases parse toLower visited
    · obtain ⟨empty', -⟩ | ⟨score, le, found, -⟩ := @best_cases parse toLower visited'
      · rw [empty, empty']
      · rw [apart walk walk' (none score le)] at found
        cases found
    · obtain ⟨candidate, found'⟩ : ∃ candidate, leading parse toLower score visited' = some candidate := by
        refine Option.ne_none_iff_exists'.mp fun missing => ?_
        rw [apart walk' walk missing] at found
        cases found
      rw [best_eq_of_leading le found' fun higher lt => apart walk walk' (none higher lt)]
      refine settled score le (fun higher lt => (lead walk higher).none.mp (none higher lt)) _
        ((lead walk score).mem _ found) _ ((lead walk' score).mem _ found')

def tiedPage : Json :=
  .object [("a", .object [("name", .string "x")]), ("b", .object [("name", .string "y")])]

/-- The preview is the one product or the other. -/
theorem tied_preview_changes :
    let decode := fun _ : String => some tiedPage
    let extracts := ExtractJSONLDMetadata (fun _ => none) Char.toLower decode ["page"]
    extracts ⟨"x", "", ""⟩ ∧ extracts ⟨"y", "", ""⟩ ∧
      ¬Stable (fun _ => none) Char.toLower decode ["page"] := by
  intro decode extracts
  have leaf (name : String) : WalkJSONLD (.object [("name", .string name)])
      [[("name", .string name)]] :=
    .object (List.Perm.refl _) (.cons (.string name) .nil)
  have first : WalkJSONLD tiedPage _ :=
    .object (List.Perm.refl _) (.cons (leaf "x") (.cons (leaf "y") .nil))
  have second : WalkJSONLD tiedPage _ :=
    .object (List.Perm.swap _ _ []) (.cons (leaf "y") (.cons (leaf "x") .nil))
  have x : extracts ⟨"x", "", ""⟩ := ⟨_, .cons first .nil, by decide +kernel⟩
  have y : extracts ⟨"y", "", ""⟩ := ⟨_, .cons second .nil, by decide +kernel⟩
  exact ⟨x, y, fun stable => absurd (stable.same _ _ x y) (by decide)⟩

end Memos.Httpgetter

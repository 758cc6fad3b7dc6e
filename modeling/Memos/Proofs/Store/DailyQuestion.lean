/-
All calls agree on one seed.

What a call is about to write is what it has seen, with a seed where there was none.  So a
conditional write puts a seed into a row that has none, or does nothing, and from the
first seed on no write of a call changes the row.  A call returns the seed it has found or
the one it has written, and in both cases it is the one in the row, then and later.

Other writers may do to the other fields what they like, on the same condition, as long as
they leave a seed alone that they have seen.
-/
import Memos.Store.DailyQuestion

namespace Memos.Store.DailyQuestion

open Runs

variable {json : Json}

/-! ### What a row says -/

def seedIn (json : Json) (row : Option String) : Option String :=
  match dailyQuestionSeedJSON json (row.getD "\x7b\x7d") with
  | .ok (_, seed) => if seed ≠ "" then some seed else none
  | .error _ => none

def field (json : Json) (row : Option String) (key : String) : Option json.Value :=
  match json.unmarshal (row.getD "\x7b\x7d") with
  | .ok (some values) => values.lookup key
  | _ => none

/-- The rows differ in the seed at most. -/
def SameElsewhere (json : Json) (row row' : Option String) : Prop :=
  ∀ key, key ∉ seedKeys → field json row' key = field json row key

theorem SameElsewhere.refl (row : Option String) : SameElsewhere json row row := fun _ _ => rfl

theorem SameElsewhere.trans {a b c : Option String} (h : SameElsewhere json a b)
    (h' : SameElsewhere json b c) : SameElsewhere json a c :=
  fun key other => (h' key other).trans (h key other)

theorem dailyQuestionSeedJSON_eq_ok {raw seed : String} {values : json.Fields}
    (h : dailyQuestionSeedJSON json raw = .ok (values, seed)) :
    json.unmarshal raw = .ok (some values) ∧ seedAmong json values seedKeys = .ok seed := by
  unfold dailyQuestionSeedJSON at h
  split at h
  · cases h
  · cases h
  · rename_i values' read
    cases among : seedAmong json values' seedKeys with
    | error message =>
        rw [among] at h
        cases h
    | ok seed' =>
        rw [among] at h
        injection h with h
        injection h with is is'
        rw [← is, ← is']
        exact ⟨read, among⟩

theorem NewSeed_ne_empty {random : Random} {seed : String} (h : NewSeed random = .ok seed) :
    seed ≠ "" := by
  unfold NewSeed at h
  split at h
  · cases h
  · rename_i data
    injection h with h
    intro empty
    rw [empty] at h
    have none := congrArg String.toList h
    unfold EncodeToString at none
    rw [String.toList_ofList] at none
    have short : data.toList.length = 8 := Vector.length_toList
    cases bytes : data.toList with
    | nil =>
        rw [bytes] at short
        cases short
    | cons b rest =>
        rw [bytes] at none
        cases none

/-- What is written when there was no seed. -/
structure Proposal (json : Json) (seen : Option String) (value seed : String) : Prop where
  missing : seedIn json seen = none
  seeded : seedIn json (some value) = some seed
  elsewhere : SameElsewhere json seen (some value)

theorem proposal {seen : Option String} {values : json.Fields} {seed value : String}
    (read : dailyQuestionSeedJSON json (seen.getD "\x7b\x7d") = .ok (values, ""))
    (nonempty : seed ≠ "") (written : json.marshal (withSeed json values seed) = .ok value) :
    Proposal json seen value seed := by
  obtain ⟨values', back, same⟩ := json.unmarshal_marshal _ _ written
  have among : seedAmong json values' seedKeys = .ok seed := by
    unfold seedKeys seedAmong
    rw [same, withSeed, AList.lookup_insert]
    dsimp only
    rw [json.unmarshalString_marshalString]
    exact if_pos nonempty
  refine ⟨?_, ?_, fun key other => ?_⟩
  · unfold seedIn
    rw [read]
    exact if_neg (fun h => h rfl)
  · unfold seedIn dailyQuestionSeedJSON
    rw [Option.getD_some, back]
    dsimp only
    rw [among]
    exact if_pos nonempty
  · unfold field
    rw [Option.getD_some, back, (dailyQuestionSeedJSON_eq_ok read).1]
    dsimp only
    have camel : key ≠ "dailyQuestionSeed" := fun is => other (is ▸ List.mem_cons_self)
    have snake : key ≠ "daily_question_seed" :=
      fun is => other (is ▸ List.mem_cons_of_mem _ List.mem_cons_self)
    rw [same, withSeed, AList.lookup_insert_ne camel, AList.lookup_erase_ne snake]

/-! ### Other writers -/

/-- Another writer leaves a seed alone that it has seen. -/
def keepsSeed (json : Json) : Action → Bool
  | .other seen value =>
      (seedIn json seen).all fun seed => decide (seedIn json (some value) = some seed)
  | _ => true

def KeepsSeed (json : Json) (_ : Server) (a : Action) : Prop := keepsSeed json a = true

instance (s : Server) (a : Action) : Decidable (KeepsSeed json s a) :=
  inferInstanceAs (Decidable (keepsSeed json a = true))

def Action.isOther : Action → Bool
  | .other _ _ => true
  | _ => false

/-! ### What holds along the way -/

structure Inv (json : Json) (s : Server) : Prop where
  returned : ∀ seed, .returned seed ∈ s.calls → seedIn json s.row = some seed
  writing : ∀ rounds seen value seed, .writing rounds seen value seed ∈ s.calls →
    Proposal json seen value seed

section Steps

variable {s s' : Server} {i : Nat} {call call' : Call} {seen : Option String} {value seed : String}

theorem compareAndSet_of_ne (apart : s.row ≠ seen) : s.compareAndSet seen value = s := if_neg apart

theorem compareAndSet_row (same : s.row = seen) : (s.compareAndSet seen value).row = some value := by
  unfold Server.compareAndSet
  rw [if_pos same]

theorem compareAndSet_calls : (s.compareAndSet seen value).calls = s.calls := by
  unfold Server.compareAndSet
  split
  · rfl
  · rfl

theorem seedIn_compareAndSet
    (grows : ∀ seed, seedIn json seen = some seed → seedIn json (some value) = some seed)
    (h : seedIn json s.row = some seed) : seedIn json (s.compareAndSet seen value).row = some seed := by
  by_cases same : s.row = seen
  · rw [compareAndSet_row same]
    rw [same] at h
    exact grows seed h
  · rw [compareAndSet_of_ne same]
    exact h

theorem Proposal.grows (proposal : Proposal json seen value seed) (seed' : String)
    (h : seedIn json seen = some seed') : seedIn json (some value) = some seed' := by
  rw [proposal.missing] at h
  cases h

theorem Proposal.elsewhere_compareAndSet (proposal : Proposal json seen value seed) :
    SameElsewhere json s.row (s.compareAndSet seen value).row := by
  by_cases same : s.row = seen
  · rw [compareAndSet_row same, same]
    exact proposal.elsewhere
  · rw [compareAndSet_of_ne same]
    exact .refl _

theorem Inv.move (inv : Inv json s) {row : Option String}
    (kept : ∀ seed, seedIn json s.row = some seed → seedIn json row = some seed)
    (returned : ∀ seed, call' = .returned seed → seedIn json row = some seed)
    (writing : ∀ rounds seen value seed, call' = .writing rounds seen value seed →
      Proposal json seen value seed) :
    Inv json { row := row, calls := s.calls.set i call' } := by
  constructor
  · intro seed there
    rcases List.mem_or_eq_of_mem_set there with there | same
    · exact kept seed (inv.returned seed there)
    · exact returned seed same.symm
  · intro rounds seen value seed there
    rcases List.mem_or_eq_of_mem_set there with there | same
    · exact inv.writing rounds seen value seed there
    · exact writing rounds seen value seed same.symm

theorem look_spec (json : Json) (row : Option String) (rounds : Nat) (random : Random) :
    (∀ seed, look json row rounds random = .returned seed → seedIn json row = some seed) ∧
    ∀ rounds' seen value seed, look json row rounds random = .writing rounds' seen value seed →
      Proposal json seen value seed := by
  unfold look
  split
  · exact ⟨nofun, nofun⟩
  · rename_i values seed read
    by_cases found : seed ≠ ""
    · rw [if_pos found]
      refine ⟨fun seed' is => ?_, nofun⟩
      injection is with is
      unfold seedIn
      rw [read, ← is]
      exact if_pos found
    · rw [if_neg found]
      rw [not_not.mp found] at read
      split
      · exact ⟨nofun, nofun⟩
      · rename_i drawn new
        split
        · exact ⟨nofun, nofun⟩
        · rename_i text written
          refine ⟨nofun, fun rounds' seen value seed' is => ?_⟩
          injection is with _ is is' is''
          rw [← is, ← is', ← is'']
          exact proposal read (NewSeed_ne_empty new) written

theorem retry_ne (rounds : Nat) :
    (∀ seed, retry rounds ≠ .returned seed) ∧
    ∀ rounds' seen value seed, retry rounds ≠ .writing rounds' seen value seed := by
  cases rounds with
  | zero => exact ⟨nofun, nofun⟩
  | succ rounds => exact ⟨nofun, nofun⟩

/-- **A step of a call** keeps the invariant and changes no field but the seed. -/
theorem Inv.runCall (inv : Inv json s) {random : Random} (here : s.calls[i]? = some call)
    (h : runCall json random s i call = some s') :
    Inv json s' ∧ SameElsewhere json s.row s'.row := by
  cases call with
  | reading rounds =>
      injection h with h
      rw [← h]
      obtain ⟨returned, writing⟩ := look_spec json s.row rounds random
      exact ⟨inv.move (fun _ is => is) returned writing, .refl _⟩
  | writing rounds seen value seed =>
      injection h with h
      rw [← h]
      have proposal := inv.writing rounds seen value seed (List.mem_of_getElem? here)
      refine ⟨?_, proposal.elsewhere_compareAndSet⟩
      unfold Server.setCall
      rw [compareAndSet_calls]
      refine inv.move (fun _ => seedIn_compareAndSet proposal.grows) (fun seed' is => ?_) ?_
      · by_cases same : s.row = seen
        · rw [if_pos same] at is
          injection is with is
          rw [compareAndSet_row same, ← is]
          exact proposal.seeded
        · rw [if_neg same] at is
          exact absurd is ((retry_ne rounds).1 seed')
      · intro rounds' seen' value' seed' is
        by_cases same : s.row = seen
        · rw [if_pos same] at is
          cases is
        · rw [if_neg same] at is
          exact absurd is ((retry_ne rounds).2 _ _ _ _)
  | returned seed => cases h
  | failed message => cases h

theorem Inv.failCall (inv : Inv json s) {applied : Bool} {message : String}
    (here : s.calls[i]? = some call) (h : failCall s i applied message call = some s') :
    Inv json s' ∧ SameElsewhere json s.row s'.row := by
  cases call with
  | reading rounds =>
      injection h with h
      rw [← h]
      exact ⟨inv.move (fun _ is => is) nofun nofun, .refl _⟩
  | writing rounds seen value seed =>
      injection h with h
      rw [← h]
      have proposal := inv.writing rounds seen value seed (List.mem_of_getElem? here)
      cases applied with
      | false => exact ⟨inv.move (fun _ is => is) nofun nofun, .refl _⟩
      | true =>
          refine ⟨?_, proposal.elsewhere_compareAndSet⟩
          rw [if_pos rfl]
          unfold Server.setCall
          rw [compareAndSet_calls]
          exact inv.move (fun _ => seedIn_compareAndSet proposal.grows) nofun nofun
  | returned seed => cases h
  | failed message => cases h

theorem Inv.enter (inv : Inv json s) : Inv json { s with calls := s.calls ++ [.reading 7] } := by
  constructor
  · intro seed there
    rcases List.mem_append.mp there with there | there
    · exact inv.returned seed there
    · cases List.mem_singleton.mp there
  · intro rounds seen value seed there
    rcases List.mem_append.mp there with there | there
    · exact inv.writing rounds seen value seed there
    · cases List.mem_singleton.mp there

theorem Inv.other (inv : Inv json s) (ok : KeepsSeed json s (.other seen value)) :
    Inv json (s.compareAndSet seen value) := by
  have grows : ∀ seed, seedIn json seen = some seed → seedIn json (some value) = some seed := by
    intro seed is
    unfold KeepsSeed keepsSeed at ok
    dsimp only at ok
    rw [is, Option.all_some, decide_eq_true_eq] at ok
    exact ok
  constructor
  · intro seed there
    rw [compareAndSet_calls] at there
    exact seedIn_compareAndSet grows (inv.returned seed there)
  · intro rounds seen' value' seed there
    rw [compareAndSet_calls] at there
    exact inv.writing rounds seen' value' seed there

theorem Inv.step (inv : Inv json s) {a : Action} (ok : KeepsSeed json s a)
    (h : step json s a = some s') :
    Inv json s' ∧ (a.isOther = false → SameElsewhere json s.row s'.row) := by
  cases a with
  | call =>
      injection h with h
      rw [← h]
      exact ⟨inv.enter, fun _ => .refl _⟩
  | run i random =>
      obtain ⟨call, here, h⟩ := Option.bind_eq_some_iff.mp h
      obtain ⟨inv', same⟩ := inv.runCall here h
      exact ⟨inv', fun _ => same⟩
  | fail i applied message =>
      obtain ⟨call, here, h⟩ := Option.bind_eq_some_iff.mp h
      obtain ⟨inv', same⟩ := inv.failCall here h
      exact ⟨inv', fun _ => same⟩
  | other seen value =>
      injection h with h
      rw [← h]
      exact ⟨inv.other ok, nofun⟩

end Steps

/-! ### The result -/

theorem keepsSeed_of_mine {s : Server} {a : Action} (mine : a.isOther = false) :
    KeepsSeed json s a := by
  cases a with
  | other seen value => cases mine
  | _ => rfl

/-- **All calls agree on one seed.**

Start with any row, or with none.  In whatever order calls read, write, fail and try again,
and whatever other writers do on the condition that the row is what they have seen and
without changing a seed that they have seen: the seed a call has returned is the one in
the row, so that all of them are the same, and as long as only calls go on every other
field stays as it is. -/
theorem seed_agreed (json : Json) (row : Option String) {t : Server}
    (run : Run (step json) (KeepsSeed json) (begin row) t) :
    (∀ seed, .returned seed ∈ t.calls → seedIn json t.row = some seed) ∧
    (∀ seed seed', .returned seed ∈ t.calls → .returned seed' ∈ t.calls → seed = seed') ∧
    ∀ u, Run (step json) (fun _ a => a.isOther = false) t u → SameElsewhere json t.row u.row := by
  have start : Inv json (begin row) :=
    ⟨fun _ there => absurd there List.not_mem_nil, fun _ _ _ _ there => absurd there List.not_mem_nil⟩
  have inv : Inv json t := run.invariant start fun _ _ _ inv ok next => (inv.step ok next).1
  refine ⟨inv.returned, fun seed seed' there there' => ?_, fun u calls => ?_⟩
  · have same := (inv.returned seed there).symm.trans (inv.returned seed' there')
    injection same
  · have along : Inv json u ∧ SameElsewhere json t.row u.row := by
      refine calls.invariant (P := fun v => Inv json v ∧ SameElsewhere json t.row v.row)
        ⟨inv, .refl _⟩ fun v w a here mine next => ?_
      obtain ⟨inv', same⟩ := here.1.step (keepsSeed_of_mine mine) next
      exact ⟨inv', here.2.trans (same mine)⟩
    exact along.2

/-! ### Two calls at once -/

/-- A value, as far as it is told apart. -/
inductive Literal where
  | string (text : String)
  | other (text : String)
deriving DecidableEq

abbrev Texts := List (String × AList fun _ : String => Literal)

def titled : AList fun _ : String => Literal := AList.insert "customTitle" (.other "1") ∅

def texts : Texts :=
  [("\x7b\x7d", ∅), ("\x7b\"customTitle\":1\x7d", titled),
    ("\x7b\"customTitle\":1,\"dailyQuestionSeed\":\"0000000000000000\"\x7d",
      titled.insert "dailyQuestionSeed" (.string "0000000000000000")),
    ("\x7b\"customTitle\":1,\"dailyQuestionSeed\":\"1111111111111111\"\x7d",
      titled.insert "dailyQuestionSeed" (.string "1111111111111111"))]

def pairs (values : AList fun _ : String => Literal) : List (String × Literal) :=
  values.entries.map fun entry => (entry.1, entry.2)

theorem pairs_injective : Function.Injective pairs := by
  intro a b same
  refine AList.ext (List.map_injective_iff.mpr ?_ same)
  rintro ⟨key, value⟩ ⟨key', value'⟩ is
  have is : key = key' ∧ value = value' := Prod.mk.inj is
  rw [is.1, is.2]

def textJson : Json where
  Value := Literal
  unmarshal text :=
    match texts.find? fun entry => entry.1 = text with
    | some entry => .ok (some entry.2)
    | none => .error "unexpected end of JSON input"
  marshal values :=
    match texts.find? fun entry => pairs entry.2 = pairs values with
    | some entry => .ok entry.1
    | none => .error "unsupported value"
  unmarshalString
    | .string text => .ok text
    | .other _ => .error "cannot unmarshal into a string"
  marshalString := .string
  unmarshal_marshal values text h := by
    split at h
    · rename_i entry found
      injection h with h
      have there := List.mem_of_find?_eq_some found
      have is : entry.2 = values := pairs_injective (by simpa using List.find?_some found)
      refine ⟨values, ?_, fun _ => rfl⟩
      rw [← h, ← is]
      have distinct : texts.find? (fun other => other.1 = entry.1) = some entry := by
        simp only [texts, List.mem_cons, List.not_mem_nil, or_false] at there
        rcases there with rfl | rfl | rfl | rfl
        · rfl
        · rfl
        · rfl
        · rfl
      rw [distinct]
    · cases h
  unmarshalString_marshalString _ := rfl

def zeros : Random := .ok (Vector.replicate 8 0)
def ones : Random := .ok (Vector.replicate 8 17)

/-- The second call reads before the first one has written, and tries again. -/
def bothRead : List Action :=
  [.call, .call, .run 0 zeros, .run 1 ones, .run 0 zeros, .run 1 ones, .run 1 ones]

def titleOnly : Server := begin (some "\x7b\"customTitle\":1\x7d")

theorem seed_agreed_two : ∃ t,
    follow (step textJson) (KeepsSeed textJson) titleOnly bothRead = some t ∧
    t.calls = [.returned "0000000000000000", .returned "0000000000000000"] ∧
    seedIn textJson t.row = some "0000000000000000" := by
  let t : Server :=
    { row := some "\x7b\"customTitle\":1,\"dailyQuestionSeed\":\"0000000000000000\"\x7d"
      calls := [.returned "0000000000000000", .returned "0000000000000000"] }
  have follows : follow (step textJson) (KeepsSeed textJson) titleOnly bothRead = some t := by
    decide +kernel
  obtain ⟨stored, -, -⟩ := seed_agreed textJson _ (run_of_follow follows)
  exact ⟨t, follows, rfl, stored _ List.mem_cons_self⟩

/-- A writer with the same condition takes the seed out again, before the second call reads. -/
theorem seeds_differ : ∃ t,
    follow (step textJson) (fun _ _ => True) titleOnly
      [.call, .call, .run 0 zeros, .run 0 zeros,
        .other (some "\x7b\"customTitle\":1,\"dailyQuestionSeed\":\"0000000000000000\"\x7d")
          "\x7b\"customTitle\":1\x7d",
        .run 1 ones, .run 1 ones] = some t ∧
    t.calls = [.returned "0000000000000000", .returned "1111111111111111"] := by
  refine ⟨⟨some "\x7b\"customTitle\":1,\"dailyQuestionSeed\":\"1111111111111111\"\x7d", _⟩, ?_, rfl⟩
  decide +kernel

end Memos.Store.DailyQuestion

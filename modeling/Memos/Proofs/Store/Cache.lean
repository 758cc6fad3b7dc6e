/-
The counter of the cache and the entries it evicts.

Every operation changes the counter by as much as the map, so the two agree after any sequence
of operations.  An entry carries the value and the time of the last set of its key.  An
eviction goes through the map once and keeps the candidates that expire first; those it ends
with are what it takes out.
-/
import Memos.Store.Cache
import Mathlib.Data.Fintype.Basic

namespace Memos.Store.Cache

variable {V : Type} {config : Config} {data : AList fun _ : String => Item V} {key other : String}
  {itm : Item V} {keys order : List String} {entry : String × Item V}

/-! ### The map -/

theorem lookup_eraseAll : (eraseAll data keys).lookup key = some itm ↔
    key ∉ keys ∧ data.lookup key = some itm := by
  unfold eraseAll
  induction keys generalizing data with
  | nil => simp
  | cons first keys ih =>
      rw [List.foldl_cons, ih, List.mem_cons, not_or]
      by_cases same : key = first
      · rw [same, AList.lookup_erase]
        simp
      · rw [AList.lookup_erase_ne same, and_iff_right same]

theorem length_eraseAll (distinct : keys.Nodup) (there : ∀ key ∈ keys, key ∈ data) :
    (eraseAll data keys).keys.length + keys.length = data.keys.length := by
  unfold eraseAll
  induction keys generalizing data with
  | nil => rfl
  | cons first keys ih =>
      rw [List.nodup_cons] at distinct
      have rest : ∀ key ∈ keys, key ∈ data.erase first := by
        intro key mem
        refine AList.mem_erase.mpr ⟨?_, there key (List.mem_cons_of_mem _ mem)⟩
        rintro rfl
        exact distinct.1 mem
      have known : first ∈ data.keys := AList.mem_keys.mp (there first List.mem_cons_self)
      have pos := List.length_pos_of_mem known
      have before := ih distinct.2 rest
      rw [AList.keys_erase, List.length_erase_of_mem known] at before
      rw [List.foldl_cons, List.length_cons]
      omega

theorem mem_range : entry ∈ range data order ↔ entry.1 ∈ order ∧ data.lookup entry.1 = some entry.2 := by
  unfold range
  rw [List.mem_filterMap]
  constructor
  · rintro ⟨key, mem, found⟩
    obtain ⟨itm, found, same⟩ := Option.map_eq_some_iff.mp found
    rw [← same]
    exact ⟨mem, found⟩
  · rintro ⟨mem, found⟩
    refine ⟨entry.1, mem, ?_⟩
    rw [found]
    rfl

theorem map_fst_range (visits : Visits order data.keys) : (range data order).map Prod.fst = order := by
  have there : ∀ key ∈ order, ∃ itm, data.lookup key = some itm := by
    intro key mem
    have known : key ∈ data := AList.mem_keys.mpr (visits.mem_iff.mp mem)
    exact Option.isSome_iff_exists.mp (AList.lookup_isSome.mpr known)
  clear visits
  unfold range
  induction order with
  | nil => rfl
  | cons first order ih =>
      obtain ⟨itm, found⟩ := there first List.mem_cons_self
      rw [List.filterMap_cons, found, Option.map_some, List.map_cons,
        ih fun key mem => there key (List.mem_cons_of_mem _ mem)]

/-! ### Evictions -/

structure TakenOut (data data' : AList fun _ : String => Item V) (entries : List (String × Item V)) :
    Prop where
  distinct : (entries.map Prod.fst).Nodup
  known : ∀ entry ∈ entries, data.lookup entry.1 = some entry.2
  left : ∀ key itm, data'.lookup key = some itm ↔
    key ∉ entries.map Prod.fst ∧ data.lookup key = some itm
  count : data'.keys.length + entries.length = data.keys.length

theorem takenOut_eraseAll {entries : List (String × Item V)} (distinct : (entries.map Prod.fst).Nodup)
    (known : ∀ entry ∈ entries, data.lookup entry.1 = some entry.2) :
    TakenOut data (eraseAll data (entries.map Prod.fst)) entries := by
  refine ⟨distinct, known, fun key itm => lookup_eraseAll, ?_⟩
  have there : ∀ key ∈ entries.map Prod.fst, key ∈ data := by
    intro key mem
    obtain ⟨entry, here, rfl⟩ := List.mem_map.mp mem
    rw [← AList.lookup_isSome, known entry here]
    rfl
  have count := length_eraseAll distinct there
  rw [List.length_map] at count
  exact count

theorem takenOut_nil : TakenOut data data [] := by
  refine ⟨List.nodup_nil, fun entry mem => absurd mem List.not_mem_nil, fun key itm => ?_, rfl⟩
  rw [List.map_nil, and_iff_right List.not_mem_nil]

/-- None of them expires later than an entry that stays. -/
def First (entries : List (String × Item V)) (data' : AList fun _ : String => Item V) : Prop :=
  ∀ entry ∈ entries, ∀ key itm, data'.lookup key = some itm → entry.2.expiration ≤ itm.expiration

theorem threshold_pos (config : Config) : 0 < threshold config := by
  unfold threshold
  omega

theorem exists_kept (config : Config) (entries : List (String × Item V)) :
    ∃ rest, Earliest.Kept (fun entry => entry.2.expiration) (threshold config) entries
      (oldest config entries) rest :=
  Earliest.kept_foldl (threshold_pos config) entries

structure Evicts (config : Config) (c c' : Cache V) (calls : Calls V)
    (evicted : List (String × Item V)) : Prop where
  taken : TakenOut c.data c'.data evicted
  oldest : First evicted c'.data
  calls : calls = config.call evicted
  count : c'.itemCount = c.itemCount - evicted.length

theorem evicts_nil {c : Cache V} : Evicts config c c [] [] := by
  refine ⟨takenOut_nil, fun entry mem => absurd mem List.not_mem_nil, ?_, (Int.sub_zero _).symm⟩
  unfold Config.call
  split
  · rfl
  · rfl

/-- More than the limit are never left, since one entry at least is taken out. -/
theorem cleanupOldest_spec (config : Config) {c : Cache V} (visits : Visits order c.data.keys) :
    ∃ evicted, Evicts config c (cleanupOldest config order c).1 (cleanupOldest config order c).2 evicted ∧
      (config.maxItems < c.itemCount → evicted.length = min (threshold config) c.data.keys.length) := by
  unfold cleanupOldest
  split
  next small => exact ⟨[], evicts_nil, fun large => absurd small (Int.not_le.mpr large)⟩
  next large =>
    have met := map_fst_range visits
    obtain ⟨rest, kept⟩ := exists_kept config (range c.data order)
    generalize oldest config (range c.data order) = candidates at kept
    have keys : (candidates.map Prod.fst ++ rest.map Prod.fst).Perm order := by
      rw [← List.map_append, ← met]
      exact kept.parts.symm.map _
    have distinct : (candidates.map Prod.fst ++ rest.map Prod.fst).Nodup :=
      (keys.trans visits).nodup_iff.mpr c.data.keys_nodup
    have known : ∀ entry ∈ candidates, c.data.lookup entry.1 = some entry.2 := fun entry mem =>
      (mem_range.mp (kept.parts.mem_iff.mpr (List.mem_append_left _ mem))).2
    have taken := takenOut_eraseAll (List.nodup_append.mp distinct).1 known
    refine ⟨candidates, ⟨taken, ?_, rfl, rfl⟩, fun _ => ?_⟩
    · intro entry mem key itm stays
      obtain ⟨free, stays⟩ := (taken.left key itm).mp stays
      have there : key ∈ c.data := AList.lookup_isSome.mp (by rw [stays]; rfl)
      have seen : (key, itm) ∈ range c.data order :=
        mem_range.mpr ⟨visits.mem_iff.mpr (AList.mem_keys.mp there), stays⟩
      rcases List.mem_append.mp (kept.parts.mem_iff.mp seen) with mem' | mem'
      · exact absurd (List.mem_map_of_mem mem') free
      · exact kept.first entry mem _ mem'
    · have same := congrArg List.length met
      rw [List.length_map] at same
      rw [kept.length, same, visits.length_eq]

/-! ### What holds after every operation -/

/-- The counter is the size of the map, and an entry is what was last set. -/
structure Inv (config : Config) (l : Log V) : Prop where
  count : l.cache.itemCount = l.cache.data.keys.length
  bounded : l.cache.itemCount ≤ config.maxItems
  last : ∀ key itm, l.cache.data.lookup key = some itm →
    l.sets.lookup key = some (itm.value, itm.expiration)

theorem put_count {c : Cache V} (key : String) (itm : Item V) (count : c.itemCount = c.data.keys.length) :
    (put key itm c).itemCount = (put key itm c).data.keys.length := by
  unfold put
  split
  next there =>
    have known := AList.mem_keys.mp there
    have pos := List.length_pos_of_mem known
    have gone : key ∉ c.data.keys.erase key := c.data.keys_nodup.not_mem_erase
    simp only [AList.keys_insert, AList.keys_erase, List.length_cons, List.erase_of_not_mem gone,
      List.length_erase_of_mem known]
    omega
  next free =>
    have gone : key ∉ c.data.keys := fun mem => free (AList.mem_keys.mpr mem)
    simp only [AList.keys_insert, List.length_cons, List.erase_of_not_mem gone]
    omega

theorem lookup_put {c : Cache V} :
    (put key itm c).data.lookup other = if other = key then some itm else c.data.lookup other := by
  unfold put
  by_cases same : other = key
  · rw [same, if_pos rfl, AList.lookup_insert]
  · rw [if_neg same, AList.lookup_insert_ne same]
    split
    · exact AList.lookup_erase_ne same
    · rfl

theorem inv_fresh (limited : 1 ≤ config.maxItems) : Inv config (fresh : Log V) := by
  refine ⟨rfl, ?_, fun key itm found => ?_⟩
  · show (0 : Int) ≤ config.maxItems
    omega
  · rw [show (fresh : Log V).cache.data = ∅ from rfl, AList.lookup_empty] at found
    cases found

theorem Inv.takenOut {l : Log V} {result : Cache V × Calls V} {entries : List (String × Item V)}
    (inv : Inv config l) (taken : TakenOut l.cache.data result.1.data entries)
    (count : result.1.itemCount = l.cache.itemCount - entries.length) : Inv config (l.take result) := by
  have sum := taken.count
  have old := inv.count
  have bounded := inv.bounded
  refine ⟨?_, ?_, fun key itm found => inv.last key itm ((taken.left key itm).mp found).2⟩
  · show result.1.itemCount = result.1.data.keys.length
    omega
  · show result.1.itemCount ≤ config.maxItems
    omega

theorem takenOut_erase (found : data.lookup key = some itm) :
    TakenOut data (data.erase key) [(key, itm)] := by
  have distinct : ([(key, itm)].map Prod.fst).Nodup := List.nodup_singleton key
  refine takenOut_eraseAll distinct fun entry mem => ?_
  rw [List.mem_singleton.mp mem]
  exact found

theorem Inv.get {l : Log V} {now : Int} (inv : Inv config l) :
    Inv config (l.take (Get config key now l.cache).2) := by
  unfold Get
  split
  · exact inv.takenOut takenOut_nil (Int.sub_zero _).symm
  next itm found =>
    split
    · exact inv.takenOut (takenOut_erase found) rfl
    · exact inv.takenOut takenOut_nil (Int.sub_zero _).symm

theorem Inv.delete {l : Log V} (inv : Inv config l) :
    Inv config (l.take (Delete config key l.cache)) := by
  unfold Delete
  split
  · exact inv.takenOut takenOut_nil (Int.sub_zero _).symm
  next itm found => exact inv.takenOut (takenOut_erase found) rfl

theorem Inv.clear {l : Log V} (inv : Inv config l) (visits : Visits order l.cache.data.keys) :
    Inv config (l.take (Clear config order l.cache)) := by
  have met := map_fst_range visits
  have distinct : ((range l.cache.data order).map Prod.fst).Nodup := by
    rw [met]
    exact visits.nodup_iff.mpr l.cache.data.keys_nodup
  refine inv.takenOut (takenOut_eraseAll distinct fun entry mem => (mem_range.mp mem).2) ?_
  have count := inv.count
  have same := congrArg List.length met
  rw [List.length_map, visits.length_eq] at same
  show (0 : Int) = _
  omega

theorem mem_expired {visits : List (String × Int)} : entry ∈ expired data visits ↔
    ∃ now, (entry.1, now) ∈ visits ∧ data.lookup entry.1 = some entry.2 ∧
      now > entry.2.expiration := by
  unfold expired
  rw [List.mem_filterMap]
  constructor
  · rintro ⟨⟨key, now⟩, mem, found⟩
    obtain ⟨itm, found, same⟩ := Option.map_eq_some_iff.mp found
    obtain ⟨found, late⟩ := Option.filter_eq_some_iff.mp found
    rw [← same]
    exact ⟨now, mem, found, of_decide_eq_true late⟩
  · rintro ⟨now, mem, found, late⟩
    refine ⟨(entry.1, now), mem, ?_⟩
    rw [found, Option.filter_some, if_pos (decide_eq_true late), Option.map_some]

theorem sublist_expired (visits : List (String × Int)) :
    ((expired data visits).map Prod.fst).Sublist (visits.map Prod.fst) := by
  unfold expired
  induction visits with
  | nil => exact .slnil
  | cons visit visits ih =>
      rw [List.filterMap_cons]
      split
      · exact ih.cons _
      next entry found =>
        obtain ⟨itm, -, rfl⟩ := Option.map_eq_some_iff.mp found
        exact ih.cons_cons _

theorem Inv.cleanup {l : Log V} {visits : List (String × Int)} (inv : Inv config l)
    (all : Visits (visits.map Prod.fst) l.cache.data.keys) :
    Inv config (l.take (cleanup config visits l.cache)) := by
  have distinct : ((expired l.cache.data visits).map Prod.fst).Nodup :=
    (sublist_expired visits).nodup (all.nodup_iff.mpr l.cache.data.keys_nodup)
  refine inv.takenOut (takenOut_eraseAll distinct fun entry mem => ?_) rfl
  obtain ⟨now, -, found, -⟩ := mem_expired.mp mem
  exact found

/-- A set, before and after the check of the limit. -/
theorem Inv.put {l : Log V} (inv : Inv config l) (key : String) (itm : Item V) :
    (Cache.put key itm l.cache).itemCount ≤ config.maxItems + 1 ∧
      ∀ other itm', (Cache.put key itm l.cache).data.lookup other = some itm' →
        ((key, itm.value, itm.expiration) :: l.sets).lookup other =
          some (itm'.value, itm'.expiration) := by
  constructor
  · have bounded := inv.bounded
    unfold Cache.put
    split
    · dsimp only
      omega
    · dsimp only
      omega
  · intro other itm' found
    rw [lookup_put] at found
    rw [List.lookup_cons]
    by_cases same : other = key
    · rw [if_pos same] at found
      injection found with found
      rw [same, beq_self_eq_true, found]
    · rw [if_neg same] at found
      rw [beq_eq_false_iff_ne.mpr same]
      exact inv.last other itm' found

theorem set_spec {l : Log V} {value : V} {ttl now : Int} (inv : Inv config l)
    (limited : 1 ≤ config.maxItems)
    (visits : Visits order (Cache.put key ⟨value, now + ttl⟩ l.cache).data.keys) :
    Inv config ((l.take (SetWithTTL config order key value ttl now l.cache)).remember key value
      (now + ttl)) ∧
    ∃ evicted, Evicts config (Cache.put key ⟨value, now + ttl⟩ l.cache)
      (SetWithTTL config order key value ttl now l.cache).1
      (SetWithTTL config order key value ttl now l.cache).2 evicted := by
  obtain ⟨few, last⟩ := inv.put key ⟨value, now + ttl⟩
  have count := put_count key ⟨value, now + ttl⟩ inv.count
  unfold SetWithTTL
  dsimp only
  generalize Cache.put key ⟨value, now + ttl⟩ l.cache = c at visits few last count
  split
  next large =>
    obtain ⟨evicted, evicts, many⟩ := cleanupOldest_spec config visits
    have sum := evicts.taken.count
    have left := evicts.count
    have pos := threshold_pos config
    have many := many large.2
    refine ⟨⟨?_, ?_, fun other itm found => last other itm ((evicts.taken.left other itm).mp found).2⟩,
      evicted, evicts⟩
    · show (cleanupOldest config order c).1.itemCount = (cleanupOldest config order c).1.data.keys.length
      omega
    · show (cleanupOldest config order c).1.itemCount ≤ config.maxItems
      omega
  next small => exact ⟨⟨count, by show c.itemCount ≤ _; omega, last⟩, [], evicts_nil⟩

def Operation.stored (config : Config) : Operation V → Option (String × Item V)
  | .set key value now _ => some (key, ⟨value, now + config.defaultTTL⟩)
  | .setWithTTL key value ttl now _ => some (key, ⟨value, now + ttl⟩)
  | _ => none

theorem step_set {l t : Log V} {op : Operation V} (inv : Inv config l) (limited : 1 ≤ config.maxItems)
    (stored : op.stored config = some (key, itm)) (next : step config l op = some t) :
    Inv config t ∧ ∃ evicted calls, t.calls = l.calls ++ calls ∧
      Evicts config (Cache.put key itm l.cache) t.cache calls evicted := by
  cases op with
  | set key' value now order | setWithTTL key' value ttl now order =>
      injection stored with stored
      rw [Prod.mk.injEq] at stored
      obtain ⟨rfl, rfl⟩ := stored
      rw [step, Option.ite_none_right_eq_some] at next
      obtain ⟨visits, next⟩ := next
      injection next with next
      rw [← next]
      obtain ⟨inv', evicted, evicts⟩ := set_spec inv limited visits
      exact ⟨inv', evicted, _, rfl, evicts⟩
  | get key' now => cases stored
  | delete key' => cases stored
  | clear order => cases stored
  | cleanup visits => cases stored

theorem Inv.step {l t : Log V} {op : Operation V} (limited : 1 ≤ config.maxItems) (inv : Inv config l)
    (next : Cache.step config l op = some t) : Inv config t := by
  cases op with
  | set key value now order => exact (step_set inv limited rfl next).1
  | setWithTTL key value ttl now order => exact (step_set inv limited rfl next).1
  | get key now =>
      injection next with next
      rw [← next]
      exact inv.get
  | delete key =>
      injection next with next
      rw [← next]
      exact inv.delete
  | clear order =>
      rw [Cache.step, Option.ite_none_right_eq_some] at next
      obtain ⟨visits, next⟩ := next
      injection next with next
      rw [← next]
      exact inv.clear visits
  | cleanup visits =>
      rw [Cache.step, Option.ite_none_right_eq_some] at next
      obtain ⟨all, next⟩ := next
      injection next with next
      rw [← next]
      exact inv.cleanup all

/-- After any sequence of operations the counter is the size of the map and within the limit, and
what is read is what was last set and has not expired.  A set takes out entries of which none
expires later than one that stays, with one call for each. -/
theorem cache_runs (config : Config) (limited : 1 ≤ config.maxItems) (l : Log V)
    (run : Runs.Run (step config) (fun _ _ => True) fresh l) :
    Size l.cache = l.cache.data.keys.length ∧ Size l.cache ≤ config.maxItems ∧
    (∀ key now value, (Get config key now l.cache).1 = some value →
      ∃ expiration, l.sets.lookup key = some (value, expiration) ∧ now ≤ expiration) ∧
    ∀ op key itm t, op.stored config = some (key, itm) → step config l op = some t →
      ∃ evicted, TakenOut (put key itm l.cache).data t.cache.data evicted ∧
        First evicted t.cache.data ∧ t.calls = l.calls ++ config.call evicted := by
  have inv : Inv config l := run.invariant (inv_fresh limited) fun _ _ _ inv _ next => inv.step limited next
  refine ⟨inv.count, inv.bounded, ?_, ?_⟩
  · intro key now value got
    unfold Get at got
    split at got
    · cases got
    next itm found =>
      split at got
      · cases got
      next early =>
        injection got with got
        rw [← got]
        exact ⟨itm.expiration, inv.last key itm found, Int.not_lt.mp early⟩
  · intro op key itm t stored next
    obtain ⟨-, evicted, calls, appended, evicts⟩ := step_set inv limited stored next
    rw [evicts.calls] at appended
    exact ⟨evicted, evicts.taken, evicts.oldest, appended⟩

/-! ### A cache for two entries -/

def twoEntries : Config := ⟨100, 2, true⟩

def twoSets : List (Operation Nat) :=
  [.setWithTTL "a" 1 50 0 ["a"], .set "b" 2 10 ["b", "a"], .setWithTTL "b" 3 5 20 ["a", "b"]]

theorem cache_runs_two : ∃ l t, Runs.Run (step twoEntries) (fun _ _ => True) fresh l ∧
    step twoEntries l (.set "c" 4 30 ["c", "a", "b"]) = some t ∧ Size l.cache = 2 ∧ Size t.cache = 2 ∧
    t.calls = [("b", 3)] ∧
    ∃ evicted, TakenOut (put "c" ⟨4, 130⟩ l.cache).data t.cache.data evicted ∧
      First evicted t.cache.data ∧ t.calls = l.calls ++ twoEntries.call evicted := by
  obtain ⟨l, t, follows, next, before, after, called⟩ : ∃ l t,
      Runs.follow (step twoEntries) (fun _ _ => True) fresh twoSets = some l ∧
      step twoEntries l (.set "c" 4 30 ["c", "a", "b"]) = some t ∧ Size l.cache = 2 ∧
      Size t.cache = 2 ∧ t.calls = [("b", 3)] :=
    ⟨_, _, rfl, rfl, rfl, rfl, rfl⟩
  have run := Runs.run_of_follow follows
  exact ⟨l, t, run, next, before, after, called,
    (cache_runs twoEntries (by decide) l run).2.2.2 _ "c" ⟨4, 130⟩ t rfl next⟩

end Memos.Store.Cache

/-
When the counter stays the size of the map.

A call that has changed the map but not yet the counter, or the other way round, owes the
difference.  The counter is the size of the map and what all calls owe, as long as every step
finds the map as the call takes it to be: a key that is counted as new is not there, one that
is counted as deleted is, and the counter is set to zero when there is nothing.  A step that
finds it otherwise puts the counter wrong.
-/

namespace Memos.Store.Cache

variable {V : Type}

/-! ### What calls owe -/

/-- By how much the counter is above the size of the map because of a call. -/
def Phase.owed : Phase V → Nat
  | .setStore _ _ _ => 1
  | .oldestDelete _ deleted | .oldestAdd deleted => deleted
  | .getAdd | .deleteAdd => 1
  | .clearRange _ deleted | .clearDelete _ _ deleted | .clearStore deleted => deleted
  | .cleanupRange _ deleted | .cleanupDelete _ _ deleted | .cleanupAdd deleted => deleted
  | _ => 0

def owed : List (Phase V) → Nat
  | [] => 0
  | phase :: calls => phase.owed + owed calls

def Balanced (s : Shared V) : Prop :=
  s.cache.itemCount = s.cache.data.keys.length + owed s.calls

/-- The map is as a call takes it to be, and the other calls, where that matters. -/
def Phase.Fits (c : Cache V) (others : List (Phase V)) : Phase V → Prop
  | .setDelete key _ _ | .getDelete key | .clearDelete key _ _ | .cleanupDelete key _ _ => key ∈ c.data
  | .setStore key _ _ => key ∉ c.data
  | .oldestDelete (key :: _) _ => key ∈ c.data
  | .clearStore _ => c.data.keys = [] ∧ ∀ phase ∈ others, phase.owed = 0
  | _ => True

/-- The step that is taken fits. -/
def StepFits (s : Shared V) : Action V → Prop
  | .start _ => True
  | .advance i _ _ => ∀ phase, s.calls[i]? = some phase → phase.Fits s.cache (s.calls.eraseIdx i)

theorem owed_of_getElem? {calls : List (Phase V)} {i : Nat} {phase : Phase V}
    (at' : calls[i]? = some phase) : owed calls = phase.owed + owed (calls.eraseIdx i) := by
  induction calls generalizing i with
  | nil => cases at'
  | cons first calls ih =>
      cases i with
      | zero =>
          rw [List.getElem?_cons_zero, Option.some_inj] at at'
          rw [owed, at', List.eraseIdx_zero, List.tail_cons]
      | succ i =>
          rw [List.getElem?_cons_succ] at at'
          rw [List.eraseIdx_cons_succ, owed, owed, ih at']
          omega

theorem owed_eq_zero {calls : List (Phase V)} : owed calls = 0 ↔ ∀ phase ∈ calls, phase.owed = 0 := by
  induction calls with
  | nil => simp [owed]
  | cons first calls ih => rw [owed, Nat.add_eq_zero_iff, ih, List.forall_mem_cons]

theorem owed_append (calls more : List (Phase V)) : owed (calls ++ more) = owed calls + owed more := by
  induction calls with
  | nil => rw [List.nil_append, owed, Nat.zero_add]
  | cons first calls ih => rw [List.cons_append, owed, owed, ih, Nat.add_assoc]

theorem owed_set {calls : List (Phase V)} {i : Nat} {phase next : Phase V}
    (at' : calls[i]? = some phase) : owed (calls.set i next) = next.owed + owed (calls.eraseIdx i) := by
  obtain ⟨inside, -⟩ := List.getElem?_eq_some_iff.mp at'
  have here : (calls.set i next)[i]? = some next := List.getElem?_set_self inside
  rw [owed_of_getElem? here, List.eraseIdx_set_eq]

/-! ### One step -/

section Keys

variable {c : Cache V} {key : String}

theorem length_erase_of_mem (there : key ∈ c.data) :
    (c.erase key).data.keys.length + 1 = c.data.keys.length := by
  have known := AList.mem_keys.mp there
  have pos := List.length_pos_of_mem known
  rw [erase, AList.keys_erase, List.length_erase_of_mem known]
  omega

theorem length_erase_of_notMem (free : key ∉ c.data) :
    (c.erase key).data.keys.length = c.data.keys.length := by
  rw [erase, AList.keys_erase, List.erase_of_not_mem fun mem => free (AList.mem_keys.mpr mem)]

theorem erase_balanced_iff {n : Nat} {total : Int} (before : total = c.data.keys.length + n) :
    total = (c.erase key).data.keys.length + (n + 1 : Nat) ↔ key ∈ c.data := by
  constructor
  · intro after
    by_contra free
    have same := length_erase_of_notMem free
    omega
  · intro there
    have less := length_erase_of_mem there
    omega

theorem insert_balanced_iff {n : Nat} {total : Int} {itm : Item V}
    (before : total = c.data.keys.length + (n + 1 : Nat)) :
    total = (c.data.insert key itm).keys.length + n ↔ key ∉ c.data := by
  by_cases there : key ∈ c.data
  · have known := AList.mem_keys.mp there
    have pos := List.length_pos_of_mem known
    rw [AList.keys_insert, List.length_cons, List.length_erase_of_mem known]
    simp only [there, not_true_eq_false, iff_false]
    omega
  · rw [AList.keys_insert, List.length_cons,
      List.erase_of_not_mem fun mem => there (AList.mem_keys.mpr mem)]
    simp only [there, not_false_eq_true, iff_true]
    omega

end Keys

/-- The counter is right when the calls owe so much. -/
def Counts (c : Cache V) (n : Nat) : Prop := c.itemCount = c.data.keys.length + n

section Advance

variable {config : Config} {c c' : Cache V} {now : Int} {visit : Option String} {key : String}
  {phase next : Phase V} {others : List (Phase V)} {m n o : Nat}

theorem counts_erase_iff (before : Counts c (n + o)) :
    Counts (c.erase key) ((n + 1) + o) ↔ key ∈ c.data := by
  rw [Nat.add_right_comm]
  exact erase_balanced_iff before

theorem counts_insert_iff {itm : Item V} (before : Counts c (1 + o)) :
    Counts { c with data := c.data.insert key itm } (0 + o) ↔ key ∉ c.data := by
  rw [Nat.zero_add]
  rw [Nat.add_comm] at before
  exact insert_balanced_iff before

theorem counts_add (before : Counts c (m + o)) (delta : Int) (same : (m : Int) + delta = n) :
    Counts (c.add delta) (n + o) := by
  unfold Counts at before ⊢
  show c.itemCount + delta = c.data.keys.length + (n + o : Nat)
  omega

/-- What a step leads to that always can be taken. -/
theorem advanced {phase' : Phase V} (taken : some (c, phase) = some (c', phase')) :
    c = c' ∧ phase = phase' := by
  rw [Option.some_inj, Prod.mk.injEq] at taken
  exact taken

/-- A step keeps the balance exactly when it fits. -/
theorem advance_counts_iff (before : Counts c (phase.owed + owed others))
    (taken : advance config c now visit phase = some (c', next)) :
    Counts c' (next.owed + owed others) ↔ phase.Fits c others := by
  cases phase with
  | setLoad key value ttl =>
      obtain ⟨rfl, rfl⟩ := advanced taken
      refine iff_of_true ?_ trivial
      split
      · exact before
      · exact before
  | setDelete key value ttl =>
      obtain ⟨rfl, rfl⟩ := advanced taken
      exact counts_erase_iff before
  | setAdd key value ttl =>
      obtain ⟨rfl, rfl⟩ := advanced taken
      exact iff_of_true (counts_add before 1 rfl) trivial
  | setStore key value ttl =>
      obtain ⟨rfl, rfl⟩ := advanced taken
      exact counts_insert_iff before
  | setCheck | oldestLoad =>
      obtain ⟨rfl, rfl⟩ := advanced taken
      refine iff_of_true ?_ trivial
      split
      · exact before
      · exact before
  | oldestRange visited candidates =>
      refine iff_of_true ?_ trivial
      cases visit with
      | none =>
          obtain ⟨rfl, rfl⟩ := advanced taken
          exact before
      | some key =>
          rw [advance] at taken
          obtain ⟨itm, -, same⟩ := Option.map_eq_some_iff.mp taken
          rw [Prod.mk.injEq] at same
          obtain ⟨rfl, rfl⟩ := same
          exact before
  | oldestDelete candidates deleted =>
      cases candidates with
      | nil =>
          obtain ⟨rfl, rfl⟩ := advanced taken
          exact iff_of_true before trivial
      | cons key candidates =>
          obtain ⟨rfl, rfl⟩ := advanced taken
          exact counts_erase_iff before
  | oldestAdd deleted =>
      obtain ⟨rfl, rfl⟩ := advanced taken
      exact iff_of_true (counts_add before _ (Int.add_right_neg _)) trivial
  | getLoad key =>
      obtain ⟨rfl, rfl⟩ := advanced taken
      refine iff_of_true ?_ trivial
      split
      · exact before
      · split
        · exact before
        · exact before
  | getDelete key =>
      obtain ⟨rfl, rfl⟩ := advanced taken
      exact counts_erase_iff before
  | getAdd =>
      obtain ⟨rfl, rfl⟩ := advanced taken
      exact iff_of_true (counts_add before (-1) rfl) trivial
  | deleteLoad key =>
      refine iff_of_true ?_ trivial
      rw [advance, Option.some_inj] at taken
      split at taken
      next there =>
        rw [Prod.mk.injEq] at taken
        obtain ⟨rfl, rfl⟩ := taken
        exact (counts_erase_iff before).mpr there
      · rw [Prod.mk.injEq] at taken
        obtain ⟨rfl, rfl⟩ := taken
        exact before
  | deleteAdd =>
      obtain ⟨rfl, rfl⟩ := advanced taken
      exact iff_of_true (counts_add before (-1) rfl) trivial
  | clearRange visited deleted =>
      refine iff_of_true ?_ trivial
      cases visit with
      | none =>
          obtain ⟨rfl, rfl⟩ := advanced taken
          exact before
      | some key =>
          rw [advance] at taken
          obtain ⟨itm, -, same⟩ := Option.map_eq_some_iff.mp taken
          rw [Prod.mk.injEq] at same
          obtain ⟨rfl, rfl⟩ := same
          exact before
  | clearDelete key visited deleted =>
      obtain ⟨rfl, rfl⟩ := advanced taken
      exact counts_erase_iff before
  | clearStore deleted =>
      obtain ⟨rfl, rfl⟩ := advanced taken
      show (0 : Int) = c.data.keys.length + (0 + owed others : Nat) ↔
        c.data.keys = [] ∧ ∀ phase ∈ others, phase.owed = 0
      rw [← owed_eq_zero, ← List.length_eq_zero_iff]
      omega
  | cleanupRange visited deleted =>
      refine iff_of_true ?_ trivial
      cases visit with
      | none =>
          obtain ⟨rfl, rfl⟩ := advanced taken
          exact before
      | some key =>
          rw [advance] at taken
          obtain ⟨itm, -, same⟩ := Option.map_eq_some_iff.mp taken
          rw [Prod.mk.injEq] at same
          obtain ⟨rfl, rfl⟩ := same
          split
          · exact before
          · exact before
  | cleanupDelete key visited deleted =>
      obtain ⟨rfl, rfl⟩ := advanced taken
      exact counts_erase_iff before
  | cleanupAdd deleted =>
      obtain ⟨rfl, rfl⟩ := advanced taken
      exact iff_of_true (counts_add before _ (Int.add_right_neg _)) trivial
  | returned => cases taken

end Advance

/-! ### Runs -/

section Runs

variable {config : Config} {s t : Shared V} {a : Action V}

theorem owed_first (call : Call V) : (call.first config).owed = 0 := by
  cases call with
  | set key value => rfl
  | setWithTTL key value ttl => rfl
  | get key => rfl
  | delete key => rfl
  | clear => rfl
  | cleanup => rfl

theorem step_balanced_iff (balanced : Balanced s) (next : stepCalls config s a = some t) :
    Balanced t ↔ StepFits s a := by
  cases a with
  | start call =>
      injection next with next
      rw [← next]
      refine iff_of_true ?_ trivial
      unfold Balanced at balanced ⊢
      dsimp only
      rw [owed_append, owed, owed_first, owed]
      exact balanced
  | advance i now visit =>
      obtain ⟨phase, at', next⟩ := Option.bind_eq_some_iff.mp next
      obtain ⟨⟨c, phase'⟩, taken, rfl⟩ := Option.map_eq_some_iff.mp next
      unfold Balanced at balanced ⊢
      dsimp only
      rw [owed_of_getElem? at'] at balanced
      rw [owed_set at']
      have step := advance_counts_iff balanced taken
      unfold Counts at step
      rw [step]
      unfold StepFits
      constructor
      · intro fits phase₂ at₂
        rw [at', Option.some_inj] at at₂
        rw [← at₂]
        exact fits
      · intro fits
        exact fits phase at'

/-- In every run whose steps fit, the counter is the size of the map whenever no call is in the
middle of a change; and a step that does not fit puts it wrong. -/
theorem calls_balanced (config : Config) (s : Shared V)
    (run : Runs.Run (stepCalls config) StepFits unused s) :
    ((∀ phase ∈ s.calls, phase = .returned) → Size s.cache = s.cache.data.keys.length) ∧
    Balanced s ∧ ∀ a t, stepCalls config s a = some t → (Balanced t ↔ StepFits s a) := by
  have balanced : Balanced s :=
    run.invariant (show Balanced (unused : Shared V) from rfl) fun _ _ _ balanced fits next =>
      (step_balanced_iff balanced next).mpr fits
  refine ⟨fun all => ?_, balanced, fun a t next => step_balanced_iff balanced next⟩
  have nothing : owed s.calls = 0 := owed_eq_zero.mpr fun phase mem => by
    rw [all phase mem]
    rfl
  unfold Balanced at balanced
  rw [nothing] at balanced
  show s.cache.itemCount = s.cache.data.keys.length
  omega

end Runs

/-! ### Two sets of one key -/

theorem stepFits_of {s : Shared V} {i : Nat} {now : Int} {visit : Option String} {phase : Phase V}
    (at' : s.calls[i]? = some phase) (fits : phase.Fits s.cache (s.calls.eraseIdx i)) :
    StepFits s (.advance i now visit) := by
  intro phase' at₂
  rw [at', Option.some_inj] at at₂
  rw [← at₂]
  exact fits

theorem calls_balanced_set : ∃ s : Shared Nat, Runs.Run (stepCalls twoEntries) StepFits unused s ∧
    s.calls = [.returned] ∧ Size s.cache = 1 ∧ Size s.cache = s.cache.data.keys.length := by
  have unstarted : Runs.Run (stepCalls twoEntries) StepFits (unused : Shared Nat) unused := .refl
  have started := unstarted.tail (.start (.set "a" 1)) (by exact trivial) rfl
  have looked := started.tail (.advance 0 0 none) (stepFits_of rfl (by exact trivial)) rfl
  have counted := looked.tail (.advance 0 0 none) (stepFits_of rfl (by exact trivial)) rfl
  have stored := counted.tail (.advance 0 0 none) (stepFits_of rfl (by exact AList.notMem_empty "a")) rfl
  have done := stored.tail (.advance 0 0 none) (stepFits_of rfl (by exact trivial)) rfl
  refine ⟨_, done, rfl, rfl, (calls_balanced twoEntries _ done).1 fun phase mem => ?_⟩
  exact List.mem_singleton.mp mem

def twoCalls : List (Action Nat) :=
  [.start (.set "a" 1), .start (.set "a" 2), .advance 0 0 none, .advance 1 0 none, .advance 0 0 none,
    .advance 1 0 none, .advance 0 0 none, .advance 1 0 none, .advance 0 0 none, .advance 1 0 none]

theorem counter_drifts : ∃ s : Shared Nat,
    Runs.Run (stepCalls twoEntries) (fun _ _ => True) unused s ∧
      (∀ phase ∈ s.calls, phase = .returned) ∧ Size s.cache = 2 ∧ s.cache.data.keys = ["a"] := by
  obtain ⟨s, follows, returned, size, keys⟩ : ∃ s : Shared Nat,
      Runs.follow (stepCalls twoEntries) (fun _ _ => True) unused twoCalls = some s ∧
      s.calls = [.returned, .returned] ∧ Size s.cache = 2 ∧ s.cache.data.keys = ["a"] :=
    ⟨_, rfl, rfl, rfl, rfl⟩
  refine ⟨s, Runs.run_of_follow follows, ?_, size, keys⟩
  rw [returned]
  simp

end Memos.Store.Cache

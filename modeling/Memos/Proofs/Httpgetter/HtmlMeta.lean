/-
How often a page is fetched for its preview.

While a page is being fetched there is nothing kept for it.  So what was kept has expired, or had
to make room; and it only has to when as many pages as there is room for were stored no earlier.
-/
import Memos.Httpgetter.HtmlMeta
import Memos.Lib.Runs
import Mathlib.Data.Finset.Card

namespace Memos.Httpgetter

open Runs

variable {cache : MetaCache} {key : String} {entry : CacheEntry} {now : Int}

/-! ### The cache -/

theorem of_lookup_erase {other : String} (there : (cache.erase key).lookup other = some entry) :
    other ≠ key ∧ cache.lookup other = some entry := by
  have apart : other ≠ key := by
    rintro rfl
    rw [AList.lookup_erase] at there
    cases there
  exact ⟨apart, AList.lookup_erase_ne apart ▸ there⟩

/-- One cache is what is left of another one, of which only entries that have expired are missing. -/
structure Left (now : Int) (cache left : MetaCache) : Prop where
  before : ∀ {key entry}, left.lookup key = some entry → cache.lookup key = some entry
  after : ∀ {key entry}, cache.lookup key = some entry →
    entry.expiresAt ≤ now ∨ left.lookup key = some entry
  length : left.keys.length ≤ cache.keys.length

theorem getCached_spec (now : Int) (key : String) (cache : MetaCache) :
    Left now cache (getCached now key cache).2 ∧
      match (getCached now key cache).1 with
      | none => (getCached now key cache).2.lookup key = none
      | some result => ∃ entry, cache.lookup key = some entry ∧ entry.result = result := by
  unfold getCached
  split
  · exact ⟨⟨id, .inr, le_rfl⟩, ‹_›⟩
  · rename_i entry found
    by_cases expired : entry.expiresAt ≤ now
    · rw [if_pos expired]
      refine ⟨⟨fun there => (of_lookup_erase there).2, fun {other entry'} there => ?_, ?_⟩,
        AList.lookup_erase key cache⟩
      · by_cases same : other = key
        · rw [same, found] at there
          exact .inl (Option.some.inj there ▸ expired)
        · exact .inr (by rwa [AList.lookup_erase_ne same])
      · rw [AList.keys_erase]
        exact List.length_erase_le
    · rw [if_neg expired]
      exact ⟨⟨id, .inr, le_rfl⟩, entry, found, rfl⟩

theorem oldestKey_spec {order : List String} (visits : order.Perm cache.keys) (some' : cache.keys ≠ []) :
    ∃ oldest entry, oldestKey order cache = some oldest ∧ cache.lookup oldest = some entry ∧
      ∀ other entry', cache.lookup other = some entry' → entry.storedAt ≤ entry'.storedAt := by
  unfold oldestKey
  dsimp only
  have mem : ∀ other entry', cache.lookup other = some entry' ↔ (other, entry') ∈
      order.filterMap fun key => (cache.lookup key).map (key, ·) := by
    intro other entry'
    rw [List.mem_filterMap]
    constructor
    · intro found
      have there : other ∈ cache := AList.lookup_isSome.mp (by rw [found]; rfl)
      exact ⟨other, visits.mem_iff.mpr (AList.mem_keys.mp there), by rw [found]; rfl⟩
    · rintro ⟨other', -, same⟩
      obtain ⟨found, there, same⟩ := Option.map_eq_some_iff.mp same
      cases same
      exact there
  generalize order.filterMap (fun key => (cache.lookup key).map (key, ·)) = entries at mem
  have inhabited : entries ≠ [] := by
    rintro rfl
    obtain ⟨first, there⟩ := List.exists_mem_of_ne_nil _ some'
    obtain ⟨entry, found⟩ := Option.isSome_iff_exists.mp (AList.lookup_isSome.mpr (AList.mem_keys.mpr there))
    exact absurd ((mem first entry).mp found) List.not_mem_nil
  obtain ⟨⟨oldest, entry⟩, at', last⟩ :=
    Earliest.latest_spec (fun entry : String × CacheEntry => -entry.2.storedAt) inhabited
  refine ⟨oldest, entry, by rw [at']; rfl, (mem _ _).mpr (List.mem_of_getElem? at'), ?_⟩
  intro other entry' found
  have := last _ ((mem other entry').mp found)
  dsimp only at this
  omega

/-- An entry takes the place of one of its key, or of one that was stored first if it has to. -/
theorem setCached_spec {order : List String} (visits : order.Perm cache.keys) (now : Int)
    (key : String) (result : Result) (ttl : Int) :
    let stored := setCached order now key result ttl cache
    stored.lookup key = some ⟨result, now + ttl, now⟩ ∧
      (∀ other ≠ key, ∀ entry, stored.lookup other = some entry → cache.lookup other = some entry) ∧
      (∀ other ≠ key, ∀ entry, cache.lookup other = some entry → stored.lookup other = some entry ∨
        maxCacheEntries ≤ cache.keys.length ∧
          ∀ other entry', cache.lookup other = some entry' → entry.storedAt ≤ entry'.storedAt) ∧
      (cache.keys.length ≤ maxCacheEntries → stored.keys.length ≤ maxCacheEntries) := by
  unfold setCached
  dsimp only
  refine ⟨AList.lookup_insert _, ?_⟩
  split
  · rename_i full
    obtain ⟨new, full⟩ := full
    obtain ⟨oldest, entry, found, there, first⟩ := oldestKey_spec visits (by
      rintro none
      rw [none] at full
      exact absurd full (by decide))
    rw [found, Option.map_some, Option.getD_some]
    refine ⟨fun other apart entry' there' => ?_, fun other apart entry' there' => ?_, fun room => ?_⟩
    · rw [AList.lookup_insert_ne apart] at there'
      exact (of_lookup_erase there').2
    · rw [AList.lookup_insert_ne apart]
      by_cases same : other = oldest
      · rw [same, there] at there'
        exact .inr ⟨full, Option.some.inj there' ▸ first⟩
      · exact .inl (by rwa [AList.lookup_erase_ne same])
    · have known : oldest ∈ cache.keys :=
        AList.mem_keys.mp (AList.lookup_isSome.mp (by rw [there]; rfl))
      rw [AList.keys_insert, AList.keys_erase, List.length_cons]
      have shorter := List.length_erase_of_mem known
      have le : ((cache.keys.erase oldest).erase key).length ≤ _ := List.length_erase_le
      have := List.length_pos_of_mem known
      omega
  · rename_i free
    refine ⟨fun other apart entry there => ?_, fun other apart entry there => .inl ?_, fun room => ?_⟩
    · rwa [AList.lookup_insert_ne apart] at there
    · rwa [AList.lookup_insert_ne apart]
    · rw [AList.keys_insert, List.length_cons]
      by_cases there : key ∈ cache
      · rw [List.length_erase_of_mem (AList.mem_keys.mp there)]
        have := List.length_pos_of_mem (AList.mem_keys.mp there)
        omega
      · rw [not_and, Nat.not_le] at free
        exact (Nat.succ_le_succ List.length_erase_le).trans (free there)

/-! ### Runs -/

/-- The flight has found nothing in the cache and stored nothing yet. -/
def Flight.absent : Flight → Bool
  | .acquiring | .fetching | .fetched _ => true
  | _ => false

def Flight.holds : Flight → Bool
  | .fetching | .fetched _ | .stored _ => true
  | _ => false

def holding (flights : List (String × Flight)) : Nat := flights.countP (·.2.holds)

/-- As many pages as there is room for were stored no earlier. -/
def Crowded (log : List (String × CacheEntry)) (entry : CacheEntry) : Prop :=
  maxCacheEntries ≤
    ((log.filter fun other => entry.storedAt ≤ other.2.storedAt).map Prod.fst).toFinset.card

/-- The preview was stored for the page. -/
def Gives (log : List (String × CacheEntry)) (key : String) (result : Result) : Prop :=
  ∀ preview, result = .ok preview → ∃ entry, (key, entry) ∈ log ∧ entry.result = .ok preview

def Flight.Right (log : List (String × CacheEntry)) (key : String) : Flight → Prop
  | .stored result | .returned result => Gives log key result
  | _ => True

def Get.Right (log : List (String × CacheEntry)) : Get → Prop
  | .handed key result | .answered key (some result) => Gives log key result
  | _ => True

def Get.page : Get → String
  | .called key | .missed key | .waiting key | .handed key _ | .answered key _ => key

variable {σ γ : Type} {sync : Sync σ γ} {size acquired : σ → Nat} {joined : γ → Set (String × Nat)}

structure Inv (size acquired : σ → Nat) (joined : γ → Set (String × Nat)) (s : HTMLMetaFetcher σ γ) :
    Prop where
  room : s.cache.keys.length ≤ maxCacheEntries
  limit : size s.semaphore = maxConcurrentFetches ∧ acquired s.semaphore ≤ maxConcurrentFetches
  held : holding s.flights = acquired s.semaphore
  known : ∀ {key entry}, s.cache.lookup key = some entry → (key, entry) ∈ s.log
  absent : ∀ {key flight}, (key, flight) ∈ s.flights → flight.absent = true → s.cache.lookup key = none
  lasting : ∀ {key entry}, (key, entry) ∈ s.log →
    entry.expiresAt ≤ s.now ∨ s.cache.lookup key = some entry ∨ Crowded s.log entry
  flights : ∀ {key flight}, (key, flight) ∈ s.flights → flight.Right s.log key
  calls : ∀ get ∈ s.calls, get.Right s.log
  /-- No two functions run for one key, and none for one that nobody has joined. -/
  keys : (s.flights.map Prod.fst).Nodup
  joins : ∀ key ∈ s.flights.map Prod.fst, ∃ c, (key, c) ∈ joined s.group
  waits : ∀ {key c}, (key, c) ∈ joined s.group → ∃ get, s.calls[c]? = some get ∧ get.page = key

variable {s t : HTMLMetaFetcher σ γ} {i : Nat} {old flight : Flight} {get : Get}
  {flights : List (String × Flight)} {log : List (String × CacheEntry)}

section Flights

variable (here : flights[i]? = some (key, old))

include here

theorem perm_eraseIdx : flights.Perm ((key, old) :: flights.eraseIdx i) := by
  obtain ⟨bound, is⟩ := List.getElem?_eq_some_iff.mp here
  rw [← is]
  exact (List.getElem_cons_eraseIdx_perm bound).symm

theorem perm_set (flight : Flight) :
    (flights.set i (key, flight)).Perm ((key, flight) :: flights.eraseIdx i) :=
  List.set_perm_cons_eraseIdx (List.getElem?_eq_some_iff.mp here).1 _

theorem keys_set (flight : Flight) :
    (flights.set i (key, flight)).map Prod.fst = flights.map Prod.fst := by
  have same : (flights.map Prod.fst)[i]? = some key := by
    rw [List.getElem?_map, here]
    rfl
  obtain ⟨bound, is⟩ := List.getElem?_eq_some_iff.mp same
  rw [List.map_set, ← is]
  exact List.set_getElem_self bound

theorem holding_eraseIdx : holding flights = holding (flights.eraseIdx i) + old.holds.toNat := by
  refine ((perm_eraseIdx here).countP_eq _).trans (List.countP_cons.trans ?_)
  cases old.holds <;> rfl

theorem holding_set (flight : Flight) :
    holding (flights.set i (key, flight)) = holding (flights.eraseIdx i) + flight.holds.toNat := by
  refine ((perm_set here flight).countP_eq _).trans (List.countP_cons.trans ?_)
  cases flight.holds <;> rfl

theorem not_mem_keys (keys : (flights.map Prod.fst).Nodup) :
    key ∉ (flights.eraseIdx i).map Prod.fst :=
  (List.nodup_cons.mp (((perm_eraseIdx here).map Prod.fst).nodup_iff.mp keys)).1

end Flights

theorem Crowded.cons (crowded : Crowded log entry) (other : String × CacheEntry) :
    Crowded (other :: log) entry := by
  refine le_trans crowded (Finset.card_le_card fun key mem => ?_)
  rw [List.mem_toFinset] at mem ⊢
  exact ((List.sublist_cons_self other log).filter _).map _ |>.subset mem

theorem Gives.cons {result : Result} (gives : Gives log key result) (other : String × CacheEntry) :
    Gives (other :: log) key result := by
  intro preview same
  obtain ⟨entry, mem, result⟩ := gives preview same
  exact ⟨entry, List.mem_cons_of_mem _ mem, result⟩

theorem Flight.Right.cons (right : flight.Right log key) (other : String × CacheEntry) :
    flight.Right (other :: log) key := by
  cases flight with
  | stored result | returned result => exact Gives.cons right other
  | looking | acquiring | fetching | fetched result => trivial

theorem Get.Right.cons (right : get.Right log) (other : String × CacheEntry) :
    get.Right (other :: log) := by
  match get, right with
  | .handed key result, right | .answered key (some result), right => exact Gives.cons right other
  | .called _, _ | .missed _, _ | .waiting _, _ | .answered _ none, _ => trivial

/-- Entries of the cache that were stored no earlier leave no room. -/
theorem Inv.crowded (inv : Inv size acquired joined s) (full : maxCacheEntries ≤ s.cache.keys.length)
    (first : ∀ other entry', s.cache.lookup other = some entry' → entry.storedAt ≤ entry'.storedAt) :
    Crowded s.log entry := by
  refine le_trans full ?_
  rw [← List.toFinset_card_of_nodup s.cache.keys_nodup]
  refine Finset.card_le_card fun key mem => ?_
  rw [List.mem_toFinset] at mem ⊢
  obtain ⟨entry', found⟩ := Option.isSome_iff_exists.mp (AList.lookup_isSome.mpr (AList.mem_keys.mpr mem))
  exact List.mem_map.mpr ⟨(key, entry'), List.mem_filter.mpr
    ⟨inv.known found, decide_eq_true (first key entry' found)⟩, rfl⟩

theorem Inv.cached (inv : Inv size acquired joined s) {left : MetaCache} (rest : Left s.now s.cache left) :
    Inv size acquired joined { s with cache := left } where
  __ := inv
  room := rest.length.trans inv.room
  known found := inv.known (rest.before found)
  absent {key flight} here absent := by
    have gone := inv.absent here absent
    refine Option.eq_none_iff_forall_ne_some.mpr fun entry found => ?_
    rw [rest.before found] at gone
    cases gone
  lasting {key entry} mem := by
    rcases inv.lasting mem with expired | found | crowded
    · exact .inl expired
    · exact (rest.after found).imp_right .inl
    · exact .inr (.inr crowded)

theorem Inv.gives (inv : Inv size acquired joined s) {result : Result}
    (found : ∃ entry, s.cache.lookup key = some entry ∧ entry.result = result) :
    Gives s.log key result := by
  obtain ⟨entry, found, same⟩ := found
  exact fun preview ok => ⟨entry, inv.known found, same.trans ok⟩

theorem Inv.called (inv : Inv size acquired joined s) (here : s.calls[i]? = some get) {g : Get}
    (same : g.page = get.page) (right : g.Right s.log) :
    Inv size acquired joined { s with calls := s.calls.set i g } where
  __ := inv
  calls := Debts.forall_set inv.calls right
  waits {key c} mem := by
    obtain ⟨waiting, there, is⟩ := inv.waits mem
    by_cases other : c = i
    · rw [other] at there ⊢
      obtain ⟨bound, -⟩ := List.getElem?_eq_some_iff.mp here
      exact ⟨g, List.getElem?_set_self bound, same.trans ((Option.some.inj (here.symm.trans there)) ▸ is)⟩
    · exact ⟨waiting, (List.getElem?_set_ne (Ne.symm other)).trans there, is⟩

/-- A call joins the flight of its page, or starts one. -/
theorem Inv.join (inv : Inv size acquired joined s)
    (documented : sync.Documented size acquired joined)
    (here : s.calls[i]? = some (.missed key)) :
    Inv size acquired joined { s with
      group := (sync.DoChan s.group key i).2
      flights := if (sync.DoChan s.group key i).1 then s.flights ++ [(key, .looking)] else s.flights
      calls := s.calls.set i (.waiting key) } := by
  have waiting := inv.called here (g := .waiting key) rfl trivial
  have joined_eq := documented.join s.group key i
  have more : joined s.group ⊆ joined (sync.DoChan s.group key i).2 := joined_eq ▸ Set.subset_insert ..
  have waits : ∀ {other c}, (other, c) ∈ joined (sync.DoChan s.group key i).2 →
      ∃ get, (s.calls.set i (.waiting key))[c]? = some get ∧ get.page = other := by
    intro other c mem
    rw [joined_eq] at mem
    rcases Set.mem_insert_iff.mp mem with new | mem
    · cases new
      obtain ⟨bound, -⟩ := List.getElem?_eq_some_iff.mp here
      exact ⟨_, List.getElem?_set_self bound, rfl⟩
    · exact waiting.waits mem
  have joins : ∀ key ∈ s.flights.map Prod.fst, ∃ c, (key, c) ∈ joined (sync.DoChan s.group _ i).2 :=
    fun other mem => (inv.joins other mem).imp fun _ mem => more mem
  split
  · rename_i first
    have new : key ∉ s.flights.map Prod.fst := fun mem =>
      (inv.joins key mem).elim ((documented.first s.group key i).mp first)
    refine { waiting with waits, held := ?_, absent := ?_, flights := ?_, keys := ?_, joins := ?_ }
    · exact (List.countP_append ..).trans inv.held
    · intro other flight mem absent
      rcases List.mem_append.mp mem with mem | is
      · exact inv.absent mem absent
      · cases List.mem_singleton.mp is
        cases absent
    · intro other flight mem
      rcases List.mem_append.mp mem with mem | is
      · exact inv.flights mem
      · cases List.mem_singleton.mp is
        trivial
    · rw [List.map_append]
      exact List.nodup_append_comm.mp (List.nodup_cons.mpr ⟨new, inv.keys⟩)
    · intro other mem
      rw [List.map_append] at mem
      rcases List.mem_append.mp mem with mem | is
      · exact joins other mem
      · exact ⟨i, (List.mem_singleton.mp is) ▸ joined_eq ▸ Set.mem_insert ..⟩
  · exact { waiting with waits, joins }

/-- A flight goes on. -/
theorem Inv.goOn (inv : Inv size acquired joined s) (here : s.flights[i]? = some (key, old))
    (flight : Flight) {semaphore : σ}
    (limit : size semaphore = maxConcurrentFetches ∧ acquired semaphore ≤ maxConcurrentFetches)
    (held : acquired semaphore + old.holds.toNat = acquired s.semaphore + flight.holds.toNat)
    (absent : flight.absent = true → s.cache.lookup key = none) (right : flight.Right s.log key) :
    Inv size acquired joined ({ s with semaphore }.goOn i key flight) where
  __ := inv
  limit := limit
  held := by
    have before := holding_eraseIdx here
    have after := holding_set here flight
    have := inv.held
    show holding (s.flights.set i (key, flight)) = acquired semaphore
    omega
  absent mem := by
    rcases List.mem_or_eq_of_mem_set mem with mem | is
    · exact inv.absent mem
    · cases is
      exact absent
  flights mem := by
    rcases List.mem_or_eq_of_mem_set mem with mem | is
    · exact inv.flights mem
    · cases is
      exact right
  keys := (keys_set here flight).symm ▸ inv.keys
  joins := (keys_set here flight).symm ▸ inv.joins

/-- What was fetched for a page is stored, of which nothing is kept. -/
theorem Inv.store (inv : Inv size acquired joined s) {result : Result}
    (here : s.flights[i]? = some (key, .fetched result)) {order : List String}
    (visits : order.Perm s.cache.keys) (ttl : Int) :
    Inv size acquired joined { s with
      cache := setCached order s.now key result ttl s.cache
      log := (key, ⟨result, s.now + ttl, s.now⟩) :: s.log
      flights := s.flights.set i (key, .stored result) } := by
  obtain ⟨there, before, after, room⟩ := setCached_spec visits s.now key result ttl
  have gone := inv.absent (List.mem_of_getElem? here) rfl
  refine { inv with
    room := room inv.room
    held := ((holding_set here (.stored result)).trans (holding_eraseIdx here).symm).trans inv.held
    known := fun {other entry} found => ?_
    absent := fun {other flight} mem absent => ?_
    lasting := fun {other entry} mem => ?_
    flights := fun {other flight} mem => ?_
    calls := fun get mem => (inv.calls get mem).cons _
    keys := (keys_set here _).symm ▸ inv.keys
    joins := (keys_set here _).symm ▸ inv.joins }
  · by_cases same : other = key
    · rw [same, there] at found
      rw [same, ← Option.some.inj found]
      exact List.mem_cons_self
    · exact List.mem_cons_of_mem _ (inv.known (before other same entry found))
  · rcases List.mem_cons.mp ((perm_set here _).mem_iff.mp mem) with is | mem
    · cases is
      cases absent
    · have apart : other ≠ key := fun same =>
        not_mem_keys here inv.keys (same ▸ List.mem_map_of_mem (f := Prod.fst) mem)
      have gone := inv.absent (List.mem_of_mem_eraseIdx mem) absent
      refine Option.eq_none_iff_forall_ne_some.mpr fun entry found => ?_
      rw [before other apart entry found] at gone
      cases gone
  · rcases List.mem_cons.mp mem with same | mem
    · cases same
      exact .inr (.inl there)
    · rcases inv.lasting mem with expired | found | crowded
      · exact .inl expired
      · have apart : other ≠ key := by
          rintro rfl
          rw [found] at gone
          cases gone
        rcases after other apart entry found with found | ⟨full, first⟩
        · exact .inr (.inl found)
        · exact .inr (.inr ((inv.crowded full first).cons _))
      · exact .inr (.inr (crowded.cons _))
  · rcases List.mem_or_eq_of_mem_set mem with mem | is
    · exact (inv.flights mem).cons _
    · cases is
      exact fun preview ok => ⟨_, List.mem_cons_self, ok⟩

/-- The result of a flight is sent to the calls that have joined it. -/
theorem Inv.land (inv : Inv size acquired joined s)
    (documented : sync.Documented size acquired joined) {result : Result}
    (here : s.flights[i]? = some (key, .returned result)) :
    Inv size acquired joined { s with
      group := (sync.Send s.group key).2
      calls := s.calls.mapIdx fun c get =>
        if c ∈ (sync.Send s.group key).1 then Get.hand result get else get
      flights := s.flights.eraseIdx i } where
  __ := inv
  held := (holding_eraseIdx here).symm.trans inv.held
  absent mem := inv.absent (List.mem_of_mem_eraseIdx mem)
  flights mem := inv.flights (List.mem_of_mem_eraseIdx mem)
  calls get' mem := by
    obtain ⟨c, bound, rfl⟩ := List.mem_mapIdx.mp mem
    have right := inv.calls _ (List.getElem_mem bound)
    split
    · rename_i sent
      obtain ⟨get, there, page⟩ := inv.waits ((documented.sent s.group key c).mp sent)
      rw [List.getElem?_eq_getElem bound] at there
      rw [Option.some.inj there] at right ⊢
      cases get with
      | waiting other =>
          have gives : Gives s.log key result := inv.flights (List.mem_of_getElem? here)
          exact page ▸ gives
      | called _ | missed _ | handed _ _ | answered _ _ => exact right
    · exact right
  keys := inv.keys.sublist ((List.eraseIdx_sublist ..).map _)
  joins other mem := by
    obtain ⟨c, joined⟩ := inv.joins other (((List.eraseIdx_sublist ..).map _).subset mem)
    refine ⟨c, documented.leave s.group key ▸ ⟨joined, fun same => ?_⟩⟩
    exact not_mem_keys here inv.keys ((show other = key from same) ▸ mem)
  waits {other c} mem := by
    have mem : (other, c) ∈ joined (sync.Send s.group key).2 := mem
    rw [documented.leave] at mem
    obtain ⟨get, there, page⟩ := inv.waits mem.1
    refine ⟨_, (List.getElem?_mapIdx).trans (congrArg _ there), ?_⟩
    split
    · rw [← page]
      cases get <;> rfl
    · exact page

theorem Inv.runCall (inv : Inv size acquired joined s)
    (documented : sync.Documented size acquired joined)
    (here : s.calls[i]? = some get) (h : s.runCall sync i get = some t) : Inv size acquired joined t := by
  cases get with
  | called key =>
      obtain ⟨left, answer⟩ := getCached_spec s.now key s.cache
      unfold HTMLMetaFetcher.runCall at h
      dsimp only at h
      generalize getCached s.now key s.cache = looked at left answer h
      obtain ⟨cached, cache⟩ := looked
      rw [← Option.some.inj h]
      cases cached with
      | none => exact (inv.cached left).called here rfl trivial
      | some result => exact (inv.cached left).called here rfl (inv.gives answer)
  | missed key => exact Option.some.inj h ▸ inv.join documented here
  | handed key result =>
      have gives : Gives s.log key result := inv.calls _ (List.mem_of_getElem? here)
      exact Option.some.inj h ▸ inv.called here rfl gives
  | waiting key | answered key result => cases h

theorem Inv.runFlight (inv : Inv size acquired joined s)
    (documented : sync.Documented size acquired joined)
    (here : s.flights[i]? = some (key, flight)) {fetched : Result} {order : List String}
    (h : s.runFlight sync i key fetched order flight = some t) : Inv size acquired joined t := by
  cases flight with
  | looking =>
      obtain ⟨left, answer⟩ := getCached_spec s.now key s.cache
      unfold HTMLMetaFetcher.runFlight at h
      dsimp only at h
      generalize getCached s.now key s.cache = looked at left answer h
      obtain ⟨cached, cache⟩ := looked
      rw [← Option.some.inj h]
      cases cached with
      | none => exact (inv.cached left).goOn here .acquiring inv.limit rfl (fun _ => answer) trivial
      | some result =>
          exact (inv.cached left).goOn here (.returned result) inv.limit rfl nofun
            (inv.gives answer)
  | acquiring =>
      obtain ⟨semaphore, acquires, rfl⟩ := Option.map_eq_some_iff.mp h
      obtain ⟨same, one, limit⟩ := documented.acquire _ _ acquires
      rw [inv.limit.1] at same limit
      exact inv.goOn here .fetching ⟨same, limit⟩ one (fun _ => inv.absent (List.mem_of_getElem? here) rfl) trivial
  | fetching =>
      exact Option.some.inj h ▸ inv.goOn here (.fetched fetched) inv.limit rfl
        (fun _ => inv.absent (List.mem_of_getElem? here) rfl) trivial
  | fetched result =>
      unfold HTMLMetaFetcher.runFlight at h
      dsimp only at h
      split at h
      · rename_i visits
        exact Option.some.inj h ▸ inv.store here visits _
      · cases h
  | stored result =>
      have gives : Gives s.log key result := inv.flights (List.mem_of_getElem? here)
      have held : 0 < acquired s.semaphore := by
        rw [← inv.held]
        exact List.countP_pos_iff.mpr ⟨_, List.mem_of_getElem? here, rfl⟩
      obtain ⟨same, released⟩ := documented.release _ held
      rw [← Option.some.inj h]
      exact inv.goOn here (.returned result)
        ⟨same.trans inv.limit.1, (Nat.le.intro released).trans inv.limit.2⟩ released nofun gives
  | returned result => exact Option.some.inj h ▸ inv.land documented here

theorem Inv.next (inv : Inv size acquired joined s)
    (documented : sync.Documented size acquired joined)
    {action : HTMLMetaFetcher.Action} (h : s.next sync action = some t) : Inv size acquired joined t := by
  unfold HTMLMetaFetcher.next at h
  cases action with
  | tick now =>
      dsimp only at h
      split at h
      · rename_i later
        rw [← Option.some.inj h]
        exact { inv with lasting := fun mem => (inv.lasting mem).imp_left fun old => old.trans later }
      · cases h
  | call key =>
      rw [← Option.some.inj h]
      refine { inv with calls := fun get mem => ?_, waits := fun mem => ?_ }
      · rcases List.mem_append.mp mem with mem | mem
        · exact inv.calls get mem
        · rw [List.mem_singleton.mp mem]
          trivial
      · obtain ⟨get, there, page⟩ := inv.waits mem
        obtain ⟨bound, -⟩ := List.getElem?_eq_some_iff.mp there
        exact ⟨get, (List.getElem?_append_left bound).trans there, page⟩
  | run i =>
      obtain ⟨get, here, h⟩ := Option.bind_eq_some_iff.mp h
      exact inv.runCall documented here h
  | cancel i =>
      dsimp only at h
      split at h
      · rename_i here
        exact Option.some.inj h ▸ inv.called here (g := .answered _ none) rfl trivial
      · rename_i here
        exact Option.some.inj h ▸ inv.called here (g := .answered _ none) rfl trivial
      · cases h
  | fly i fetched order =>
      obtain ⟨⟨key, flight⟩, here, h⟩ := Option.bind_eq_some_iff.mp h
      exact inv.runFlight documented here h
  | giveUp i err =>
      dsimp only at h
      split at h
      · rename_i here
        rw [← Option.some.inj h]
        exact inv.goOn here (.returned (.error err)) inv.limit rfl nofun nofun
      · cases h

theorem inv_run {opened : Int} (documented : sync.Documented size acquired joined)
    (run : Run (HTMLMetaFetcher.next sync) (fun _ _ => True) (.NewHTMLMetaFetcher sync opened) s) :
    Inv size acquired joined s := by
  obtain ⟨new, none⟩ := documented.new maxConcurrentFetches
  refine run.invariant ⟨Nat.zero_le _, ⟨new, none ▸ Nat.zero_le _⟩, none.symm, nofun, nofun, nofun,
    nofun, nofun, .nil, nofun, fun {key c} mem => ?_⟩ fun _ _ _ inv _ h => inv.next documented h
  have mem : (key, c) ∈ joined sync.Group := mem
  exact absurd mem (documented.idle ▸ Set.notMem_empty _)

/-- **Pages are spared.** There are never more entries than there is room for.  While a page is
being fetched, everything that was stored for it has expired, or as many pages as there is room for
were stored no earlier. -/
theorem fetches_spared {opened : Int} (documented : sync.Documented size acquired joined)
    (run : Run (HTMLMetaFetcher.next sync) (fun _ _ => True) (.NewHTMLMetaFetcher sync opened) s) :
    s.cache.keys.length ≤ maxCacheEntries ∧
      ∀ key, (key, .fetching) ∈ s.flights → ∀ entry, (key, entry) ∈ s.log →
        entry.expiresAt ≤ s.now ∨ Crowded s.log entry := by
  have inv := inv_run documented run
  refine ⟨inv.room, fun key here entry logged => ?_⟩
  rcases inv.lasting logged with expired | found | crowded
  · exact .inl expired
  · rw [inv.absent here rfl] at found
    cases found
  · exact .inr crowded

/-- A semaphore that counts, and a group that lists who has joined. -/
def counted : Sync (Nat × Nat) (List (String × Nat)) where
  NewWeighted n := (n, 0)
  Acquire s := if s.2 < s.1 then some (s.1, s.2 + 1) else none
  Release s := (s.1, s.2 - 1)
  Group := []
  DoChan g key c := (g.all (·.1 ≠ key), (key, c) :: g)
  Send g key := ((g.filter (·.1 = key)).map Prod.snd, g.filter (·.1 ≠ key))

theorem counted_documented : counted.Documented Prod.fst Prod.snd fun g => {call | call ∈ g} where
  new n := ⟨rfl, rfl⟩
  acquire s s' acquires := by
    obtain ⟨room, is⟩ := Option.ite_none_right_eq_some.mp acquires
    cases is
    exact ⟨rfl, rfl, room⟩
  release s some' := ⟨rfl, Nat.sub_add_cancel some'⟩
  idle := Set.eq_empty_of_forall_notMem fun _ => List.not_mem_nil
  first g key c := by
    simp only [counted, List.all_eq_true, decide_eq_true_eq, Set.mem_ofPred_eq]
    exact ⟨fun others c' mem => others _ mem rfl, fun none call mem same => none call.2 (same ▸ mem)⟩
  join g key c := by
    ext call
    exact List.mem_cons
  sent g key c := by simp [counted]
  leave g key := by
    ext call
    simp [counted]

/-- A page is asked for twice, the second time a day and a second later. -/
def askedAgain : List HTMLMetaFetcher.Action :=
  let ask i : List HTMLMetaFetcher.Action := [.call "u", .run i, .run i]
  let fly n := List.replicate n (.fly 0 (.ok ⟨"Soup", "", ""⟩) [])
  ask 0 ++ fly 6 ++ [.run 0, .tick (successCacheTTL + 1000000000)] ++ ask 1 ++ fly 2

def afterwards : Option (HTMLMetaFetcher (Nat × Nat) (List (String × Nat))) :=
  follow (HTMLMetaFetcher.next counted) (fun _ _ => True) (.NewHTMLMetaFetcher counted 0) askedAgain

theorem fetches_spared_again : ∃ s entry, afterwards = some s ∧
    s.flights = [("u", .fetching)] ∧ s.log = [("u", entry)] ∧
      s.cache.keys.length ≤ maxCacheEntries ∧ (entry.expiresAt ≤ s.now ∨ Crowded s.log entry) := by
  obtain ⟨s, entry, follows, flights, log⟩ : ∃ s entry, afterwards = some s ∧
      s.flights = [("u", .fetching)] ∧ s.log = [("u", entry)] := ⟨_, _, rfl, rfl, rfl⟩
  obtain ⟨room, spared⟩ := fetches_spared counted_documented (run_of_follow follows)
  exact ⟨s, entry, follows, flights, log, room, spared "u" (flights ▸ List.mem_singleton_self _) entry
    (log ▸ List.mem_singleton_self _)⟩

/-- **Fetches are few.** The semaphore has been acquired by the flights that hold it, each once, and
by no more than may fetch at a time. -/
theorem fetches_limited {opened : Int} (documented : sync.Documented size acquired joined)
    (run : Run (HTMLMetaFetcher.next sync) (fun _ _ => True) (.NewHTMLMetaFetcher sync opened) s) :
    holding s.flights = acquired s.semaphore ∧ acquired s.semaphore ≤ maxConcurrentFetches :=
  have inv := inv_run documented run
  ⟨inv.held, inv.limit.2⟩

theorem fetches_limited_again : ∃ s, afterwards = some s ∧
    s.semaphore = (8, 1) ∧ holding s.flights = 1 := by
  obtain ⟨s, follows, acquired⟩ : ∃ s, afterwards = some s ∧ s.semaphore = (8, 1) := ⟨_, rfl, rfl⟩
  have held := (fetches_limited counted_documented (run_of_follow follows)).1
  exact ⟨s, follows, acquired, held.trans (congrArg Prod.snd acquired)⟩

/-- **A preview is the page's own.** Whatever a call returns was stored for its page. -/
theorem previews_own {opened : Int} {preview : HTMLMeta}
    (documented : sync.Documented size acquired joined)
    (run : Run (HTMLMetaFetcher.next sync) (fun _ _ => True) (.NewHTMLMetaFetcher sync opened) s)
    (returned : .answered key (some (.ok preview)) ∈ s.calls) :
    ∃ entry, (key, entry) ∈ s.log ∧ entry.result = .ok preview :=
  (inv_run documented run).calls _ returned preview rfl

theorem previews_own_again : ∃ s, afterwards = some s ∧
    ∃ entry, ("u", entry) ∈ s.log ∧ entry.result = .ok ⟨"Soup", "", ""⟩ := by
  obtain ⟨s, follows, calls⟩ : ∃ s, afterwards = some s ∧
      s.calls = [.answered "u" (some (.ok ⟨"Soup", "", ""⟩)), .waiting "u"] := ⟨_, rfl, rfl⟩
  exact ⟨s, follows,
    previews_own counted_documented (run_of_follow follows) (calls ▸ List.mem_cons_self)⟩

end Memos.Httpgetter

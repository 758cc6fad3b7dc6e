/-
When a normalized storage setting is valid and stays as it is.

The program takes it for granted that normalization leaves a setting that passes the
checks of a request: distinct ids, a type for every storage, a configuration for every S3
storage, a default that is listed.  It also puts the default in front and mirrors it into
the old fields, which the next normalization reads again.

The listed storages are taken as they come, and the ids the program adds to them are not
compared with theirs.  So it depends on the setting.  The conditions are stated on the
storages of the setting before it is normalized, and they are exact.
-/
import Memos.Lib.Firsts
import Memos.Lib.Scan
import Memos.Proofs.Store.Storage

namespace Memos.Store.Storages

open Api Firsts

variable {library : StorageLibrary} {setting : InstanceStorageSetting}

/-! ### The storages that count -/

/-- The storage under the type its configuration gives it. -/
def Storage.withType (storage : Storage) : Storage :=
  { storage with
    type := if storage.type = .STORAGE_TYPE_UNSPECIFIED ∧ storage.s3Config.isSome then
      .STORAGE_TYPE_S3 else storage.type }

/-- The id a storage goes by: its own, or the one of its namespace. -/
def Storage.effectiveID (library : StorageLibrary) (storage : Storage) : String :=
  if storage.id = "" then storageID library storage.withType else storage.id

/-- The listed storages that have an id, the first one under each. -/
def leading (library : StorageLibrary) (setting : InstanceStorageSetting) : List Storage :=
  firsts (Storage.effectiveID library) [""] setting.storages

/-- The old configuration, unless it addresses what a listed storage does. -/
def unlisted (library : StorageLibrary) (setting : InstanceStorageSetting) : List Storage :=
  match setting.s3Config with
  | none => []
  | some config =>
      if (leading library setting).any fun storage => storage.withType.place = config.place then []
      else [legacyS3Storage config]

def available (library : StorageLibrary) (setting : InstanceStorageSetting) : List Storage :=
  leading library setting ++ unlisted library setting

/-- What the two old fields stand for. -/
def legacyStorage (setting : InstanceStorageSetting) : Storage :=
  let type := if setting.storageType = .STORAGE_TYPE_UNSPECIFIED then .STORAGE_TYPE_LOCAL
    else setting.storageType
  ⟨"", "", type, if type = .STORAGE_TYPE_S3 then setting.s3Config else none⟩

/-- The storage the default names or, where there is no default, the old fields describe. -/
def preferred (library : StorageLibrary) (setting : InstanceStorageSetting) : Option Storage :=
  (available library setting).find? fun storage =>
    if setting.defaultStorageId ≠ "" then storage.effectiveID library = setting.defaultStorageId
    else storage.withType.place = (legacyStorage setting).place

/-- The configuration for old clients: that of the default, or else the first there is. -/
def mirroredConfig (library : StorageLibrary) (setting : InstanceStorageSetting) :
    Option StorageS3Config :=
  ((preferred library setting).bind (·.s3Config)).or
    ((available library setting).findSome? (·.s3Config))

/-- The setting says what each of its storages is, the ids the program generates are free, and
the configuration that is mirrored is one of an S3 storage. -/
structure Unambiguous (library : StorageLibrary) (setting : InstanceStorageSetting) : Prop where
  configured : ∀ storage ∈ leading library setting,
    storage.type = .STORAGE_TYPE_UNSPECIFIED ∨ storage.type = .STORAGE_TYPE_S3 →
      storage.s3Config ≠ none
  registered : ∀ added ∈ unlisted library setting, ∀ storage ∈ leading library setting,
    storage.effectiveID library ≠ added.effectiveID library
  chosen : setting.defaultStorageId = "" → preferred library setting = none →
    ∀ storage ∈ available library setting,
      storage.effectiveID library ≠ (legacyStorage setting).effectiveID library
  mirrored : ∀ config, mirroredConfig library setting = some config →
    ∃ storage ∈ available library setting, storage.withType.place = config.place

/-- What the program expects of a normalized setting. -/
structure Canonical (library : StorageLibrary) (setting : InstanceStorageSetting) : Prop where
  valid : validateInstanceStorages library setting = .ok ()
  front : ∃ storage rest, setting.storages = storage :: rest ∧
    storage.id = setting.defaultStorageId ∧ setting.storageType = storage.type
  stable : NormalizeInstanceStorageSetting library setting = setting

/-! ### One storage, normalized -/

theorem normalizeStorage_place_withType (storage : Storage) :
    (normalizeStorage library storage).place = storage.withType.place := rfl

theorem normalizeStorage_effectiveID (storage : Storage) :
    (normalizeStorage library storage).id = storage.effectiveID library := rfl

theorem legacyS3Storage_place (config : StorageS3Config) :
    (legacyS3Storage config).withType.place = config.place := by
  unfold Storage.withType
  rw [if_neg fun unspecified => nomatch unspecified.1]
  rfl

theorem trimSpace_defaultStorageName (storage : Storage) :
    trimSpace (defaultStorageName storage).toList ≠ [] := by
  unfold defaultStorageName
  cases storage.type with
  | STORAGE_TYPE_S3 =>
      dsimp only
      split_ifs with named
      · rw [String.toList_ofList]
        show Trim.trim isSpace (Trim.trim isSpace _) ≠ []
        rw [Trim.trim_trim]
        exact named
      · decide
  | STORAGE_TYPE_DATABASE =>
      show trimSpace "Database".toList ≠ []
      decide
  | STORAGE_TYPE_LOCAL =>
      show trimSpace "Local".toList ≠ []
      decide
  | STORAGE_TYPE_UNSPECIFIED | unrecognized number =>
      show trimSpace "Storage".toList ≠ []
      decide

/-- A storage with a type, an id and a name is left alone. -/
theorem normalizeStorage_eq_self {storage : Storage} (typed : storage.Typed)
    (identified : storage.id ≠ "") (named : trimSpace storage.name.toList ≠ []) :
    normalizeStorage library storage = storage := by
  have type : (normalizeStorage library storage).type = storage.type := normalizeStorage_type typed
  have id := normalizeStorage_id library identified
  have name : (normalizeStorage library storage).name = storage.name := if_neg named
  obtain ⟨_, _, _, _⟩ := storage
  exact Storage.mk.injEq .. |>.mpr ⟨id, name, type, rfl⟩

theorem normalizeStorage_name (storage : Storage) :
    trimSpace (normalizeStorage library storage).name.toList ≠ [] := by
  by_cases blank : trimSpace storage.name.toList = []
  · rw [normalizeStorage]
    dsimp only
    rw [if_pos blank]
    exact trimSpace_defaultStorageName _
  · rw [normalizeStorage]
    dsimp only
    rw [if_neg blank]
    exact blank

theorem normalizeStorage_twice {storage : Storage}
    (identified : (normalizeStorage library storage).id ≠ "") :
    normalizeStorage library (normalizeStorage library storage)
      = normalizeStorage library storage :=
  normalizeStorage_eq_self (normalizeStorage_typed storage) identified (normalizeStorage_name storage)

/-! ### The listed storages, normalized -/

/-- Normalizing the list keeps the first storage under each id. -/
theorem normalizeStorages_eq {seen known : List String}
    (same : ∀ id, id ∈ known ↔ id = "" ∨ id ∈ seen) (storages : List Storage) :
    normalizeStorages library seen storages
      = (firsts (Storage.effectiveID library) known storages).map (normalizeStorage library) := by
  induction storages generalizing seen known with
  | nil => rfl
  | cons storage rest ih =>
      unfold normalizeStorages firsts
      dsimp only
      by_cases skipped : storage.effectiveID library ∈ known
      · have skipped' : (normalizeStorage library storage).id = ""
            ∨ (normalizeStorage library storage).id ∈ seen := (same _).mp skipped
        rw [if_pos skipped, if_pos skipped', ih same]
      · have kept : ¬((normalizeStorage library storage).id = ""
            ∨ (normalizeStorage library storage).id ∈ seen) := fun h => skipped ((same _).mpr h)
        rw [if_neg skipped, if_neg kept, List.map_cons]
        refine congrArg (_ :: ·) (ih fun id => ?_)
        rw [List.mem_cons, List.mem_cons, same, normalizeStorage_effectiveID]
        exact or_left_comm

theorem normalizeStorages_leading (setting : InstanceStorageSetting) :
    normalizeStorages library [] setting.storages
      = (leading library setting).map (normalizeStorage library) :=
  normalizeStorages_eq (fun id => by rw [List.mem_singleton, or_iff_left List.not_mem_nil]) _

theorem effectiveID_ne_empty {storage : Storage} (mem : storage ∈ leading library setting) :
    storage.effectiveID library ≠ "" := by
  intro unnamed
  exact (of_mem_firsts mem).2 (unnamed ▸ List.mem_singleton_self _)

theorem leading_nodup : ((leading library setting).map (Storage.effectiveID library)).Nodup :=
  nodup_firsts _ _ _

/-- The storages as the program has them once they are complete. -/
def availableNormalized (library : StorageLibrary) (setting : InstanceStorageSetting) :
    List Storage :=
  (available library setting).map (normalizeStorage library)

theorem findEquivalentStorage_map (storages : List Storage) (target : Storage) :
    findEquivalentStorage (storages.map (normalizeStorage library)) target
      = (storages.find? fun storage => storage.withType.place = target.place).map
          (normalizeStorage library) := by
  unfold findEquivalentStorage
  rw [List.find?_map]
  congr 2
  funext storage
  rw [Bool.eq_iff_iff, Function.comp_apply, StorageNamespaceEqual_iff, decide_eq_true_eq,
    normalizeStorage_place_withType]

theorem mem_unlisted {added : Storage} (mem : added ∈ unlisted library setting) :
    unlisted library setting = [added] ∧
      ∃ config, setting.s3Config = some config ∧ added = legacyS3Storage config := by
  unfold unlisted at mem ⊢
  cases configured : setting.s3Config with
  | none =>
      rw [configured] at mem
      cases mem
  | some config =>
      rw [configured] at mem
      dsimp only at mem ⊢
      split_ifs at mem ⊢
      · cases mem
      · rw [List.mem_singleton] at mem
        exact ⟨by rw [mem], config, rfl, mem⟩

/-- Registering the old configuration adds it when it is not listed. -/
theorem registerLegacyS3Config_listed :
    registerLegacyS3Config library
        { setting with storages := normalizeStorages library [] setting.storages }
      = { setting with storages := availableNormalized library setting } := by
  unfold registerLegacyS3Config availableNormalized available unlisted
  rw [normalizeStorages_leading]
  cases setting.s3Config with
  | none => simp
  | some config =>
      dsimp only
      have search : findEquivalentStorage ((leading library setting).map (normalizeStorage library))
          (legacyS3Storage config)
            = ((leading library setting).find?
              fun storage => storage.withType.place = config.place).map
                (normalizeStorage library) := findEquivalentStorage_map _ _
      rw [search]
      cases found : (leading library setting).find?
          fun storage => storage.withType.place = config.place with
      | some storage =>
          rw [if_pos (List.any_eq_true.mpr ⟨storage, List.mem_of_find?_eq_some found,
            List.find?_some found⟩), List.append_nil]
          rfl
      | none =>
          rw [List.find?_eq_none] at found
          have unlisted : ¬((leading library setting).any
              fun storage => storage.withType.place = config.place) = true := by
            rw [List.any_eq_true]
            rintro ⟨storage, mem, same⟩
            exact found storage mem same
          have named : (normalizeStorage library (legacyS3Storage config)).id ≠ "" := by
            rw [(normalizeStorage_legacy library config).1]
            exact storageID_s3_ne rfl rfl (by decide)
          rw [if_neg unlisted, List.map_append]
          exact if_pos named

/-- The old fields as the program makes a storage of them. -/
theorem storageFromLegacySetting_eq :
    (storageFromLegacySetting library setting).type = (legacyStorage setting).type ∧
      (storageFromLegacySetting library setting).s3Config = (legacyStorage setting).s3Config ∧
      (storageFromLegacySetting library setting).id = (legacyStorage setting).effectiveID library ∧
      (storageFromLegacySetting library setting).place = (legacyStorage setting).place := by
  unfold storageFromLegacySetting legacyStorage
  dsimp only
  generalize given : (if setting.storageType = .STORAGE_TYPE_UNSPECIFIED then
    .STORAGE_TYPE_LOCAL else setting.storageType) = type
  by_cases s3 : type = .STORAGE_TYPE_S3
  · subst s3
    exact ⟨rfl, rfl, rfl, rfl⟩
  · rw [if_neg s3, if_neg s3]
    have same : (builtinStorage library type).type = type := normalizeStorage_type fun _ => rfl
    refine ⟨same, rfl, rfl, ?_⟩
    unfold Storage.place
    rw [same]
    rfl

theorem legacyStorage_type : (legacyStorage setting).type ≠ .STORAGE_TYPE_UNSPECIFIED := by
  unfold legacyStorage
  dsimp only
  split_ifs with unspecified
  · exact nofun
  · exact unspecified

/-- The ids of the old fields' storages are those of their namespaces. -/
theorem legacyStorage_effectiveID :
    (legacyStorage setting).effectiveID library = storageID library (legacyStorage setting) := by
  refine (if_pos rfl).trans (storageID_congr ?_)
  unfold Storage.place Storage.withType
  rw [if_neg fun unspecified => legacyStorage_type unspecified.1]

/-! ### The default -/

theorem preferred_mem {storage : Storage} (h : preferred library setting = some storage) :
    storage ∈ available library setting := List.mem_of_find?_eq_some h

theorem availableID_ne_empty {storage : Storage} (mem : storage ∈ available library setting) :
    storage.effectiveID library ≠ "" := by
  rcases List.mem_append.mp mem with mem | mem
  · exact effectiveID_ne_empty mem
  · obtain ⟨-, config, -, rfl⟩ := mem_unlisted mem
    rw [← normalizeStorage_effectiveID, (normalizeStorage_legacy library config).1]
    exact storageID_s3_ne rfl rfl (by decide)

variable (library) in
theorem find_named (named : setting.defaultStorageId ≠ "") :
    FindStorage { setting with storages := availableNormalized library setting }
        setting.defaultStorageId
      = (preferred library setting).map (normalizeStorage library) := by
  unfold FindStorage availableNormalized preferred
  rw [if_neg named, List.find?_map]
  congr 2
  funext storage
  rw [if_pos named, Function.comp_apply, normalizeStorage_effectiveID]

variable (library) in
theorem find_legacy (unnamed : setting.defaultStorageId = "") :
    findEquivalentStorage (availableNormalized library setting)
        (storageFromLegacySetting library setting)
      = (preferred library setting).map (normalizeStorage library) := by
  unfold availableNormalized preferred
  rw [findEquivalentStorage_map, storageFromLegacySetting_eq.2.2.2]
  congr 2
  funext storage
  rw [if_neg (not_not_intro unnamed)]

/-- The setting with a default chosen and, where none is to be found, a storage added. -/
def completedWith (library : StorageLibrary) (setting : InstanceStorageSetting)
    (added : List Storage) (id : String) : InstanceStorageSetting :=
  { setting with
    storages := availableNormalized library setting ++ added
    defaultStorageId := id }

theorem completed_eq : completed library setting
    = selectFallbackDefault library (selectLegacyDefault library
        { setting with storages := availableNormalized library setting }) :=
  congrArg (fun registered => selectFallbackDefault library (selectLegacyDefault library registered))
    registerLegacyS3Config_listed

theorem selectFallbackDefault_of_found {storage : Storage}
    (found : FindStorage setting setting.defaultStorageId = some storage) :
    selectFallbackDefault library setting = setting := by
  unfold selectFallbackDefault
  rw [found]

theorem completed_of_preferred {storage : Storage} (h : preferred library setting = some storage) :
    completed library setting
      = completedWith library setting [] (storage.effectiveID library) := by
  have there : normalizeStorage library storage ∈ availableNormalized library setting :=
    List.mem_map_of_mem (preferred_mem h)
  have identified : (normalizeStorage library storage).id ≠ "" :=
    availableID_ne_empty (preferred_mem h)
  rw [completed_eq, completedWith, List.append_nil]
  by_cases unnamed : setting.defaultStorageId = ""
  · have chosen : selectLegacyDefault library
        { setting with storages := availableNormalized library setting }
          = { setting with
              storages := availableNormalized library setting
              defaultStorageId := storage.effectiveID library } := by
      unfold selectLegacyDefault
      have search : findEquivalentStorage (availableNormalized library setting)
          (storageFromLegacySetting library
            { setting with storages := availableNormalized library setting })
          = some (normalizeStorage library storage) := by
        have found := find_legacy library unnamed
        rw [h] at found
        exact found
      rw [if_neg (not_not_intro unnamed)]
      dsimp only
      rw [search]
      rfl
    rw [chosen]
    obtain ⟨found, eq⟩ := @exists_FindStorage
      { setting with
        storages := availableNormalized library setting
        defaultStorageId := storage.effectiveID library } _ there identified
    exact selectFallbackDefault_of_found eq
  · have chosen : selectLegacyDefault library
        { setting with storages := availableNormalized library setting }
          = { setting with storages := availableNormalized library setting } :=
      if_pos unnamed
    have found := find_named library unnamed
    rw [h] at found
    have same : setting.defaultStorageId = storage.effectiveID library :=
      (FindStorage_eq_some found).2.1.symm
    rw [chosen, selectFallbackDefault_of_found found, ← same]

/-- Without a default and a storage for the old fields, one is added for them. -/
theorem completed_of_unnamed (none : preferred library setting = none)
    (unnamed : setting.defaultStorageId = "")
    (identified : (legacyStorage setting).effectiveID library ≠ "") :
    completed library setting
      = completedWith library setting [storageFromLegacySetting library setting]
          ((legacyStorage setting).effectiveID library) := by
  have search := find_legacy library unnamed
  rw [none, Option.map_none] at search
  have identified' : (storageFromLegacySetting library setting).id ≠ "" :=
    storageFromLegacySetting_eq.2.2.1.symm ▸ identified
  have chosen : selectLegacyDefault library
      { setting with storages := availableNormalized library setting }
        = completedWith library setting [storageFromLegacySetting library setting]
            ((legacyStorage setting).effectiveID library) := by
    have missing : findEquivalentStorage (availableNormalized library setting)
        (storageFromLegacySetting library
          { setting with storages := availableNormalized library setting }) = .none := search
    have named : (storageFromLegacySetting library
        { setting with storages := availableNormalized library setting }).id ≠ "" := identified'
    unfold selectLegacyDefault completedWith
    rw [if_neg (not_not_intro unnamed)]
    dsimp only
    rw [missing]
    dsimp only
    rw [if_pos named, ← storageFromLegacySetting_eq.2.2.1]
    rfl
  obtain ⟨found, eq⟩ := @exists_FindStorage
    (completedWith library setting [storageFromLegacySetting library setting]
      ((legacyStorage setting).effectiveID library)) _
    (List.mem_append_right _ (List.mem_singleton_self _)) identified'
  rw [storageFromLegacySetting_eq.2.2.1] at eq
  rw [completed_eq, chosen]
  exact selectFallbackDefault_of_found eq

/-- Otherwise the first storage is the default, and if there is none a local one. -/
theorem completed_of_fallback (none : preferred library setting = none)
    (lost : setting.defaultStorageId ≠ "" ∨ (legacyStorage setting).effectiveID library = "") :
    (∃ first rest, availableNormalized library setting = first :: rest ∧
        completed library setting = completedWith library setting [] first.id) ∨
      availableNormalized library setting = [] ∧
        completed library setting
          = completedWith library setting [builtinStorage library .STORAGE_TYPE_LOCAL] "local" := by
  have chosen : selectLegacyDefault library
      { setting with storages := availableNormalized library setting }
        = { setting with storages := availableNormalized library setting } := by
    unfold selectLegacyDefault
    by_cases unnamed : setting.defaultStorageId = ""
    · have missing : findEquivalentStorage (availableNormalized library setting)
          (storageFromLegacySetting library
            { setting with storages := availableNormalized library setting }) = .none := by
        have search := find_legacy library unnamed
        rw [none, Option.map_none] at search
        exact search
      have nameless : ¬(storageFromLegacySetting library
          { setting with storages := availableNormalized library setting }).id ≠ "" := by
        have id : (storageFromLegacySetting library setting).id = _ := storageFromLegacySetting_eq.2.2.1
        rw [lost.resolve_left (not_not_intro unnamed)] at id
        exact not_not_intro id
      rw [if_neg (not_not_intro unnamed)]
      dsimp only
      rw [missing]
      exact if_neg nameless
    · exact if_pos unnamed
  have missing : FindStorage { setting with storages := availableNormalized library setting }
      setting.defaultStorageId = .none := by
    by_cases unnamed : setting.defaultStorageId = ""
    · exact if_pos unnamed
    · rw [find_named library unnamed, none]
      rfl
  rw [completed_eq, chosen]
  unfold selectFallbackDefault completedWith
  rw [missing]
  cases listed : availableNormalized library setting with
  | nil => exact .inr ⟨rfl, rfl⟩
  | cons first rest => exact .inl ⟨first, rest, rfl, by rw [List.append_nil]⟩

/-- A setting with its storages complete and its default chosen. -/
structure Completed (library : StorageLibrary) (setting : InstanceStorageSetting)
    (added : List Storage) (id : String) : Prop where
  eq : completed library setting = completedWith library setting added id
  single : ∀ storage ∈ added, added = [storage]
  made : ∀ storage ∈ added, ∃ raw, normalizeStorage library raw = storage
  plain : ∀ storage ∈ added, storage.type ≠ .STORAGE_TYPE_UNSPECIFIED ∧
    storage.type ≠ .STORAGE_TYPE_S3 ∧ storage.s3Config = none
  fresh : (∀ storage ∈ added, ∀ other ∈ availableNormalized library setting,
      other.id ≠ storage.id) ↔
    (setting.defaultStorageId = "" → preferred library setting = none →
      ∀ storage ∈ available library setting,
        storage.effectiveID library ≠ (legacyStorage setting).effectiveID library)
  default : ∃ storage ∈ availableNormalized library setting ++ added, storage.id = id ∧
    storage.s3Config.or ((availableNormalized library setting).findSome? (·.s3Config))
      = mirroredConfig library setting

theorem configs_available : (availableNormalized library setting).findSome? (·.s3Config)
    = (available library setting).findSome? (·.s3Config) := by
  unfold availableNormalized
  rw [List.findSome?_map]
  rfl

theorem exists_available {config : StorageS3Config} (configured : setting.s3Config = some config) :
    ∃ storage ∈ available library setting, storage.withType.place = config.place := by
  unfold available unlisted
  rw [configured]
  dsimp only
  split_ifs with listed
  · obtain ⟨storage, mem, same⟩ := List.any_eq_true.mp listed
    exact ⟨storage, List.mem_append_left _ mem, of_decide_eq_true same⟩
  · exact ⟨_, List.mem_append_right _ (List.mem_singleton_self _), legacyS3Storage_place config⟩

theorem legacyStorage_plain (none : preferred library setting = none)
    (unnamed : setting.defaultStorageId = "")
    (identified : (legacyStorage setting).effectiveID library ≠ "") :
    (legacyStorage setting).type ≠ .STORAGE_TYPE_S3 := by
  intro s3
  have s3Config : (legacyStorage setting).s3Config = setting.s3Config := by
    unfold legacyStorage at s3 ⊢
    exact if_pos s3
  cases configured : setting.s3Config with
  | none =>
      rw [legacyStorage_effectiveID, storageID, s3, s3Config, configured] at identified
      exact identified rfl
  | some config =>
      obtain ⟨storage, mem, same⟩ := exists_available configured
      refine List.find?_eq_none.mp none storage mem ?_
      rw [if_neg (not_not_intro unnamed), decide_eq_true_eq, same]
      exact (place_of_s3 s3 (s3Config.trans configured)).symm

theorem exists_completed (library : StorageLibrary) (setting : InstanceStorageSetting) :
    ∃ added id, Completed library setting added id := by
  have mirrored : preferred library setting = none →
      mirroredConfig library setting
        = (availableNormalized library setting).findSome? (·.s3Config) := by
    intro none
    rw [configs_available, mirroredConfig, none]
    rfl
  cases chosen : preferred library setting with
  | some storage =>
      refine ⟨[], _, completed_of_preferred chosen, nofun, nofun, nofun, ?_, ?_⟩
      · exact iff_of_true nofun fun _ none => nomatch chosen.symm.trans none
      · refine ⟨normalizeStorage library storage, ?_, rfl, ?_⟩
        · rw [List.append_nil]
          exact List.mem_map_of_mem (preferred_mem chosen)
        · rw [configs_available, mirroredConfig, chosen]
          rfl
  | none =>
      by_cases alone : setting.defaultStorageId = "" ∧
          (legacyStorage setting).effectiveID library ≠ ""
      · obtain ⟨unnamed, identified⟩ := alone
        have s3 := legacyStorage_plain chosen unnamed identified
        obtain ⟨type, s3Config, id, -⟩ :=
          storageFromLegacySetting_eq
        have bare : (storageFromLegacySetting library setting).s3Config = none := by
          rw [s3Config]
          unfold legacyStorage at s3 ⊢
          exact if_neg s3
        refine ⟨_, _, completed_of_unnamed chosen unnamed identified, ?_, ?_, ?_, ?_, ?_⟩
        · intro storage mem
          rw [List.mem_singleton.mp mem]
        · intro storage mem
          obtain ⟨raw, normalized⟩ := storageFromLegacySetting_normalized library setting
          exact ⟨raw, normalized.symm.trans (List.mem_singleton.mp mem).symm⟩
        · intro storage mem
          rw [List.mem_singleton.mp mem, type]
          exact ⟨legacyStorage_type, s3, bare⟩
        · rw [List.forall_mem_singleton, id, availableNormalized, List.forall_mem_map]
          exact ⟨fun fresh _ _ => fresh, fun fresh => fresh unnamed chosen⟩
        · refine ⟨_, List.mem_append_right _ (List.mem_singleton_self _), id, ?_⟩
          rw [bare, Option.none_or, mirrored chosen]
      · have lost : setting.defaultStorageId ≠ "" ∨
            (legacyStorage setting).effectiveID library = "" := by
          rw [not_and_or, not_not] at alone
          exact alone
        rcases completed_of_fallback chosen lost with ⟨first, rest, listed, eq⟩ | ⟨empty, eq⟩
        · refine ⟨[], first.id, eq, nofun, nofun, nofun, ?_, ?_⟩
          · refine iff_of_true nofun fun unnamed _ storage mem => ?_
            rw [lost.resolve_left (not_not_intro unnamed)]
            exact availableID_ne_empty mem
          · refine ⟨first, ?_, rfl, ?_⟩
            · rw [listed]
              exact List.mem_append_left _ List.mem_cons_self
            · rw [mirrored chosen, listed, List.findSome?_cons]
              cases first.s3Config <;> rfl
        · refine ⟨_, _, eq, ?_, ?_, ?_, ?_, ?_⟩
          · intro storage mem
            rw [List.mem_singleton.mp mem]
          · intro storage mem
            exact ⟨_, (List.mem_singleton.mp mem).symm⟩
          · intro storage mem
            rw [List.mem_singleton.mp mem]
            exact ⟨nofun, nofun, rfl⟩
          · rw [empty]
            have none : available library setting = [] := List.map_eq_nil_iff.mp empty
            rw [none]
            exact iff_of_true (fun _ _ => nofun) fun _ _ => nofun
          · refine ⟨_, List.mem_append_right _ (List.mem_singleton_self _), rfl, ?_⟩
            rw [mirrored chosen]
            rfl

/-! ### The order and the old fields -/

theorem findSome?_eraseP {p : Storage → Bool} {storages : List Storage} {storage : Storage}
    (found : storages.find? p = some storage) (bare : storage.s3Config = none) :
    (storages.eraseP p).findSome? (·.s3Config) = storages.findSome? (·.s3Config) := by
  induction storages with
  | nil => cases found
  | cons first rest ih =>
      by_cases here : p first = true
      · rw [List.find?_cons_of_pos here, Option.some_inj] at found
        rw [List.eraseP_cons_of_pos here, List.findSome?_cons, found, bare]
      · rw [List.find?_cons_of_neg here] at found
        rw [List.eraseP_cons_of_neg here, List.findSome?_cons, List.findSome?_cons, ih found]

theorem moveDefaultStorageFirst_front
    (listed : ∃ storage ∈ setting.storages, storage.id = setting.defaultStorageId) :
    ∃ front rest, moveDefaultStorageFirst setting = { setting with storages := front :: rest } ∧
      front.id = setting.defaultStorageId ∧ (front :: rest).Perm setting.storages ∧
      (front :: rest).findSome? (·.s3Config)
        = front.s3Config.or (setting.storages.findSome? (·.s3Config)) := by
  obtain ⟨storage, mem, same⟩ := listed
  unfold moveDefaultStorageFirst
  cases stored : setting.storages with
  | nil =>
      rw [stored] at mem
      cases mem
  | cons first rest =>
      rw [stored] at mem
      dsimp only
      cases found : rest.find? fun storage => storage.id = setting.defaultStorageId with
      | none =>
          refine ⟨first, rest, by rw [← stored], ?_, .rfl, ?_⟩
          · rcases List.mem_cons.mp mem with rfl | mem
            · exact same
            · exact absurd (decide_eq_true same) (List.find?_eq_none.mp found storage mem)
          · rw [List.findSome?_cons]
            cases first.s3Config <;> rfl
      | some front =>
          have isDefault := List.find?_some found
          rw [decide_eq_true_eq] at isDefault
          refine ⟨front, _, rfl, isDefault,
            (List.Perm.swap _ _ _).trans ((perm_eraseP found).cons first), ?_⟩
          rw [List.findSome?_cons]
          cases bare : front.s3Config with
          | some config => rfl
          | none =>
              rw [Option.none_or]
              dsimp only
              rw [List.findSome?_cons, List.findSome?_cons, findSome?_eraseP found bare]

theorem synchronizeLegacyStorageFields_front {front : Storage} {rest : List Storage}
    (stored : setting.storages = front :: rest) (same : front.id = setting.defaultStorageId)
    (named : front.id ≠ "") :
    synchronizeLegacyStorageFields setting
      = { setting with
          storageType := front.type
          s3Config := setting.storages.findSome? (·.s3Config) } := by
  have found : setting.storages.find? (fun storage => storage.id = setting.defaultStorageId)
      = some front := by
    rw [stored]
    exact List.find?_cons_of_pos (by rw [decide_eq_true_eq]; exact same)
  unfold synchronizeLegacyStorageFields GetDefaultStorage FindStorage
  rw [if_neg (same ▸ named), found]
  dsimp only
  rw [stored, List.findSome?_cons]
  cases front.s3Config <;> rfl

/-- A normalized setting starts with its default, and its old fields are those of the default. -/
theorem normalize_front (library : StorageLibrary) (setting : InstanceStorageSetting) :
    ∃ front rest, NormalizeInstanceStorageSetting library setting
        = { completed library setting with
            storages := front :: rest
            storageType := front.type
            s3Config := (front :: rest).findSome? (·.s3Config) } ∧
      front.id = (completed library setting).defaultStorageId ∧
      (front :: rest).Perm (completed library setting).storages ∧
      (front :: rest).findSome? (·.s3Config)
        = front.s3Config.or ((completed library setting).storages.findSome? (·.s3Config)) := by
  obtain ⟨registered, chosen, fallback, completion⟩ := exists_completion library setting
  obtain ⟨front, rest, moved, same, perm, configs⟩ :=
    moveDefaultStorageFirst_front completion.hasDefault
  have named : front.id ≠ "" := by
    refine (normalize_normal library setting).named front ?_
    exact (normalize_completed library setting).1.mem_iff.mpr (perm.mem_iff.mp List.mem_cons_self)
  have steps : NormalizeInstanceStorageSetting library setting
      = synchronizeLegacyStorageFields (moveDefaultStorageFirst (completed library setting)) := rfl
  refine ⟨front, rest, ?_, same, perm, configs⟩
  rw [steps, moved]
  exact synchronizeLegacyStorageFields_front rfl same named

/-! ### The checks of a request -/

/-- What the checks ask of one storage. -/
def Checked (storage : Storage) : Prop :=
  storage.id ≠ "" ∧ storage.type ≠ .STORAGE_TYPE_UNSPECIFIED ∧
    (storage.type = .STORAGE_TYPE_S3 → storage.s3Config ≠ none)

theorem validateStorages_iff {seen ids : List String} {storages : List Storage} :
    validateStorages library seen storages = .ok ids ↔
      (∀ storage ∈ storages, Checked storage ∧ storage.id ∉ seen) ∧
        (storages.map (·.id)).Nodup ∧ ids = (storages.map (·.id)).reverse ++ seen := by
  induction storages generalizing seen with
  | nil =>
      constructor
      · intro h
        exact ⟨List.forall_mem_nil _, List.nodup_nil, (Except.ok.inj h).symm⟩
      · intro h
        rw [h.2.2]
        rfl
  | cons storage rest ih =>
      unfold validateStorages
      rw [List.forall_mem_cons, List.map_cons, List.nodup_cons, List.reverse_cons,
        List.append_assoc, List.singleton_append]
      split_ifs with unnamed repeated untyped bare
      · exact iff_of_false not_false fun h => h.1.1.1.1 unnamed
      · exact iff_of_false not_false fun h => h.1.1.2 repeated
      · exact iff_of_false not_false fun h => h.1.1.1.2.1 untyped
      · exact iff_of_false not_false fun h => h.1.1.1.2.2 bare.1 bare.2
      · have checked : Checked storage :=
          ⟨unnamed, untyped, fun s3 none => bare ⟨s3, none⟩⟩
        rw [ih]
        constructor
        · rintro ⟨valid, distinct, eq⟩
          refine ⟨⟨⟨checked, repeated⟩, fun other mem => ⟨(valid other mem).1, fun old =>
            (valid other mem).2 (List.mem_cons_of_mem _ old)⟩⟩, ⟨fun again => ?_, distinct⟩, eq⟩
          obtain ⟨other, mem, same⟩ := List.mem_map.mp again
          exact (valid other mem).2 (same ▸ List.mem_cons_self)
        · rintro ⟨⟨-, valid⟩, ⟨fresh, distinct⟩, eq⟩
          refine ⟨fun other mem => ⟨(valid other mem).1, fun old => ?_⟩, distinct, eq⟩
          rcases List.mem_cons.mp old with same | old
          · exact fresh (same ▸ List.mem_map_of_mem (f := (·.id)) mem)
          · exact (valid other mem).2 old

theorem validateInstanceStorages_iff :
    validateInstanceStorages library setting = .ok () ↔
      (∀ storage ∈ setting.storages, Checked storage) ∧
        (setting.storages.map (·.id)).Nodup ∧
        ∃ storage ∈ setting.storages, storage.id = setting.defaultStorageId := by
  unfold validateInstanceStorages
  cases checked : validateStorages library [] setting.storages with
  | error message =>
      refine iff_of_false nofun fun ⟨valid, distinct, _⟩ => ?_
      have ok : validateStorages library [] setting.storages = .ok _ := validateStorages_iff.mpr
        ⟨fun storage mem => ⟨valid storage mem, List.not_mem_nil⟩, distinct, rfl⟩
      rw [ok] at checked
      cases checked
  | ok ids =>
      obtain ⟨valid, distinct, eq⟩ := validateStorages_iff.mp checked
      show (if setting.defaultStorageId ∈ ids then _ else _) = _ ↔ _
      have listed : setting.defaultStorageId ∈ ids ↔
          ∃ storage ∈ setting.storages, storage.id = setting.defaultStorageId := by
        rw [eq, List.append_nil, List.mem_reverse, List.mem_map]
      rw [← listed]
      split_ifs with there
      · exact iff_of_true rfl ⟨fun storage mem => (valid storage mem).1, distinct, there⟩
      · exact iff_of_false nofun fun h => there h.2.2

/-! ### Normalizing twice -/

/-- Every storage of a normalized setting has been normalized. -/
theorem normalizeStorage_of_mem {storage : Storage}
    (mem : storage ∈ (NormalizeInstanceStorageSetting library setting).storages) :
    normalizeStorage library storage = storage := by
  obtain ⟨added, id, completed⟩ := exists_completed library setting
  have identified := (normalize_normal library setting).named storage mem
  have there := (normalize_completed library setting).1.mem_iff.mp mem
  rw [completed.eq] at there
  obtain ⟨raw, rfl⟩ : ∃ raw, normalizeStorage library raw = storage := by
    rcases List.mem_append.mp there with there | there
    · obtain ⟨raw, -, normalized⟩ := List.mem_map.mp there
      exact ⟨raw, normalized⟩
    · exact completed.made storage there
  exact normalizeStorage_twice identified

/-- The storages of a setting that is normalized all count. -/
theorem leading_eq_self
    (named : ∀ storage ∈ setting.storages, storage.id ≠ "")
    (distinct : (setting.storages.map (·.id)).Nodup) :
    leading library setting = setting.storages := by
  have ids : setting.storages.map (Storage.effectiveID library) = setting.storages.map (·.id) :=
    List.map_congr_left fun storage mem => if_neg (named storage mem)
  refine firsts_eq_self (ids ▸ distinct) fun storage mem unnamed => ?_
  rw [List.mem_singleton, Storage.effectiveID, if_neg (named storage mem)] at unnamed
  exact named storage mem unnamed

/-- A normalized setting with distinct ids is left alone exactly when the configuration in the
old field is one of an S3 storage. -/
theorem normalize_twice_iff
    (distinct : ((NormalizeInstanceStorageSetting library setting).storages.map (·.id)).Nodup) :
    NormalizeInstanceStorageSetting library (NormalizeInstanceStorageSetting library setting)
        = NormalizeInstanceStorageSetting library setting ↔
      ∀ config, (NormalizeInstanceStorageSetting library setting).s3Config = some config →
        ∃ storage ∈ (NormalizeInstanceStorageSetting library setting).storages,
          storage.place = config.place := by
  have named := (normalize_normal library setting).named
  have normalized : ∀ storage ∈ (NormalizeInstanceStorageSetting library setting).storages,
      normalizeStorage library storage = storage := fun storage mem => normalizeStorage_of_mem mem
  obtain ⟨front, rest, eq, same, -, -⟩ := normalize_front library setting
  generalize NormalizeInstanceStorageSetting library setting = result at *
  have all : leading library result = result.storages := leading_eq_self named distinct
  have places : ∀ storage ∈ result.storages, storage.withType.place = storage.place := by
    intro storage mem
    rw [← normalizeStorage_place_withType, normalized storage mem]
  constructor
  · intro stable config configured
    obtain ⟨added, id, completed⟩ := exists_completed library result
    have perm := (normalize_completed library result).1
    rw [stable, completed.eq] at perm
    -- Nothing was added, so the configuration was listed.
    have listed : unlisted library result = [] := by
      have lengths := perm.length_eq
      unfold completedWith availableNormalized available at lengths
      dsimp only at lengths
      rw [List.length_append, List.length_map, List.length_append, all] at lengths
      exact List.length_eq_zero_iff.mp (by omega)
    obtain ⟨storage, mem, place⟩ := exists_available configured
    rw [available, listed, List.append_nil, all] at mem
    exact ⟨storage, mem, (places storage mem).symm.trans place⟩
  · intro listed
    have stored : result.storages = front :: rest := by rw [eq]
    have isDefault : front.id = result.defaultStorageId := by rw [eq]; exact same
    have there : front ∈ result.storages := stored ▸ List.mem_cons_self
    have none : unlisted library result = [] := by
      unfold unlisted
      cases configured : result.s3Config with
      | none => rfl
      | some config =>
          obtain ⟨storage, mem, place⟩ := listed config configured
          refine if_pos (List.any_eq_true.mpr ⟨storage, all ▸ mem, ?_⟩)
          rw [decide_eq_true_eq, places storage mem, place]
    have available_eq : available library result = result.storages := by
      rw [available, none, List.append_nil, all]
    have normalized_eq : availableNormalized library result = result.storages := by
      rw [availableNormalized, available_eq]
      exact (List.map_congr_left normalized).trans (List.map_id _)
    have chosen : preferred library result = some front := by
      unfold preferred
      rw [available_eq, stored]
      refine List.find?_cons_of_pos ?_
      rw [if_pos (isDefault ▸ named front there), Storage.effectiveID, if_neg (named front there),
        isDefault]
      exact decide_eq_true rfl
    have complete : completed library result = result := by
      rw [completed_of_preferred chosen, completedWith, List.append_nil, normalized_eq,
        Storage.effectiveID, if_neg (named front there), isDefault]
    have unmoved : moveDefaultStorageFirst result = result := by
      have alone : rest.find? (fun storage => storage.id = result.defaultStorageId) = .none := by
        rw [List.find?_eq_none]
        intro storage mem again
        rw [stored, List.map_cons, List.nodup_cons] at distinct
        refine distinct.1 (List.mem_map.mpr ⟨storage, mem, ?_⟩)
        exact (of_decide_eq_true again).trans isDefault.symm
      unfold moveDefaultStorageFirst
      rw [stored]
      dsimp only
      rw [alone]
    have steps : NormalizeInstanceStorageSetting library result
        = synchronizeLegacyStorageFields (moveDefaultStorageFirst (completed library result)) := rfl
    rw [steps, complete, unmoved, synchronizeLegacyStorageFields_front stored isDefault
      (named front there)]
    rw [eq]

/-! ### When it is so -/

/-- The storages of a completed setting have distinct ids when the ids of those that are added
are free. -/
theorem Completed.nodup_iff {added : List Storage} {id : String}
    (complete : Completed library setting added id) :
    ((availableNormalized library setting ++ added).map (·.id)).Nodup ↔
      (∀ new ∈ unlisted library setting, ∀ storage ∈ leading library setting,
          storage.effectiveID library ≠ new.effectiveID library) ∧
        (setting.defaultStorageId = "" → preferred library setting = none →
          ∀ storage ∈ available library setting,
            storage.effectiveID library ≠ (legacyStorage setting).effectiveID library) := by
  have ids : (availableNormalized library setting).map (·.id)
      = (available library setting).map (Storage.effectiveID library) := by
    unfold availableNormalized
    rw [List.map_map]
    rfl
  have single : (added.map (·.id)).Nodup := nodup_of_single complete.single
  have alone : ((unlisted library setting).map (Storage.effectiveID library)).Nodup := by
    cases new : unlisted library setting with
    | nil => exact List.nodup_nil
    | cons first rest =>
        have whole := (mem_unlisted (new ▸ List.mem_cons_self : first ∈ unlisted library setting)).1
        rw [← new, whole]
        exact List.nodup_singleton _
  have apart : (∀ storage ∈ added, ∀ other ∈ availableNormalized library setting,
      other.id ≠ storage.id) ↔
      ∀ x ∈ (availableNormalized library setting).map (·.id), ∀ y ∈ added.map (·.id), x ≠ y := by
    rw [List.forall_mem_map]
    constructor
    · intro h other mem y listed
      obtain ⟨storage, new, rfl⟩ := List.mem_map.mp listed
      exact h storage new other mem
    · intro h storage mem other mem'
      exact h other mem' _ (List.mem_map_of_mem mem)
  rw [← complete.fresh, apart, List.map_append, List.nodup_append, ids, available, List.map_append,
    List.nodup_append]
  constructor
  · rintro ⟨⟨-, -, separate⟩, -, fresh⟩
    refine ⟨fun new mem storage mem' => ?_, fresh⟩
    exact separate _ (List.mem_map_of_mem mem') _ (List.mem_map_of_mem mem)
  · rintro ⟨registered, fresh⟩
    refine ⟨⟨leading_nodup, alone, fun x listed y generated => ?_⟩, single, fresh⟩
    obtain ⟨storage, mem, rfl⟩ := List.mem_map.mp listed
    obtain ⟨new, mem', rfl⟩ := List.mem_map.mp generated
    exact registered new mem' storage mem

/-- A storage that says what it is passes the checks once it is normalized. -/
theorem checked_available
    (configured : ∀ storage ∈ leading library setting,
      storage.type = .STORAGE_TYPE_UNSPECIFIED ∨ storage.type = .STORAGE_TYPE_S3 →
        storage.s3Config ≠ none)
    {storage : Storage} (mem : storage ∈ available library setting) :
    (normalizeStorage library storage).type ≠ .STORAGE_TYPE_UNSPECIFIED ∧
      ((normalizeStorage library storage).type = .STORAGE_TYPE_S3 →
        (normalizeStorage library storage).s3Config ≠ none) := by
  have some : storage.type = .STORAGE_TYPE_UNSPECIFIED ∨ storage.type = .STORAGE_TYPE_S3 →
      storage.s3Config ≠ none := by
    rcases List.mem_append.mp mem with mem | mem
    · exact configured storage mem
    · obtain ⟨-, config, -, rfl⟩ := mem_unlisted mem
      exact fun _ => nofun
  by_cases bare : storage.s3Config = none
  · have type : (normalizeStorage library storage).type = storage.type :=
      normalizeStorage_type fun _ => bare
    rw [type]
    exact ⟨fun unspecified => some (.inl unspecified) bare, fun s3 => some (.inr s3)⟩
  · exact ⟨fun unspecified => bare (normalizeStorage_typed storage unspecified), fun _ => bare⟩

/-- Normalization leaves a setting that passes the checks, starts with its default, mirrors it
and stays as it is, exactly when the setting was unambiguous. -/
theorem normalize_canonical_iff (library : StorageLibrary) (setting : InstanceStorageSetting) :
    Canonical library (NormalizeInstanceStorageSetting library setting) ↔
      Unambiguous library setting := by
  obtain ⟨added, id, complete⟩ := exists_completed library setting
  obtain ⟨front, rest, eq, same, perm, configs⟩ := normalize_front library setting
  obtain ⟨chosen, there, isDefault, mirrors⟩ := complete.default
  have storages : (NormalizeInstanceStorageSetting library setting).storages.Perm
      (availableNormalized library setting ++ added) := by
    rw [eq]
    refine perm.trans ?_
    rw [complete.eq]
    exact .rfl
  have mem : ∀ storage, storage ∈ (NormalizeInstanceStorageSetting library setting).storages ↔
      storage ∈ availableNormalized library setting ++ added := fun storage => storages.mem_iff
  have ids : ((NormalizeInstanceStorageSetting library setting).storages.map (·.id)).Nodup ↔
      ((availableNormalized library setting ++ added).map (·.id)).Nodup :=
    (storages.map (·.id)).nodup_iff
  -- The configuration in the old field, as soon as an id stands for one storage.
  have mirrored : ((availableNormalized library setting ++ added).map (·.id)).Nodup →
      (NormalizeInstanceStorageSetting library setting).s3Config
        = mirroredConfig library setting := by
    intro distinct
    have frontThere : front ∈ availableNormalized library setting ++ added :=
      (mem front).mp (by rw [eq]; exact List.mem_cons_self)
    have frontID : front.id = chosen.id := by
      rw [same, complete.eq, isDefault]
      rfl
    rw [eq]
    dsimp only
    rw [configs, List.inj_on_of_nodup_map distinct frontThere there frontID, complete.eq,
      completedWith, List.findSome?_append]
    have bare : added.findSome? (·.s3Config) = none :=
      List.findSome?_eq_none_iff.mpr fun storage mem => (complete.plain storage mem).2.2
    rw [bare, Option.or_none, mirrors]
  have distinct := complete.nodup_iff
  have valid := @validateInstanceStorages_iff library
    (NormalizeInstanceStorageSetting library setting)
  constructor
  · rintro ⟨ok, -, stable⟩
    obtain ⟨checked, nodup, -⟩ := valid.mp ok
    have free := distinct.mp (ids.mp nodup)
    refine ⟨fun storage listed kind bare => ?_, free.1, free.2, fun config configured => ?_⟩
    · have kept := checked (normalizeStorage library storage) ((mem _).mpr
        (List.mem_append_left _ (List.mem_map_of_mem (List.mem_append_left _ listed))))
      have type : (normalizeStorage library storage).type = storage.type :=
        normalizeStorage_type fun _ => bare
      rcases kind with unspecified | s3
      · exact kept.2.1 (type.trans unspecified)
      · exact kept.2.2 (type.trans s3) bare
    · rw [← mirrored (ids.mp nodup)] at configured
      obtain ⟨storage, stored, place⟩ := (normalize_twice_iff nodup).mp stable config configured
      rcases List.mem_append.mp ((mem storage).mp stored) with stored | stored
      · obtain ⟨raw, listed, rfl⟩ := List.mem_map.mp stored
        exact ⟨raw, listed, place⟩
      · exact absurd (congrArg Place.type place) (complete.plain storage stored).2.1
  · rintro ⟨configured, registered, unlisted, mirror⟩
    have nodup := ids.mpr (distinct.mpr ⟨registered, unlisted⟩)
    refine ⟨valid.mpr ⟨fun storage stored => ?_, nodup, ?_⟩, ⟨front, rest, ?_, ?_, ?_⟩,
      (normalize_twice_iff nodup).mpr fun config h => ?_⟩
    · refine ⟨(normalize_normal library setting).named storage stored, ?_⟩
      rcases List.mem_append.mp ((mem storage).mp stored) with stored | stored
      · obtain ⟨raw, listed, rfl⟩ := List.mem_map.mp stored
        exact checked_available configured listed
      · obtain ⟨typed, s3, -⟩ := complete.plain storage stored
        exact ⟨typed, fun h => absurd h s3⟩
    · exact (normalize_normal library setting).chosen
    · rw [eq]
    · rw [eq]
      exact same
    · rw [eq]
    · rw [mirrored (ids.mp nodup)] at h
      obtain ⟨raw, listed, place⟩ := mirror config h
      exact ⟨_, (mem _).mpr (List.mem_append_left _ (List.mem_map_of_mem listed)), place⟩

def hashedDatabase : InstanceStorageSetting :=
  { InstanceStorageSetting.zero with
    s3Config := some (bucket "memos")
    storages := [⟨"s3-17ab2a6bb370d6b3", "", .STORAGE_TYPE_DATABASE, none⟩]
    defaultStorageId := "s3-17ab2a6bb370d6b3" }

/-- The request passes the checks.  Normalized, it has its only id twice. -/
theorem normalize_duplicates :
    validateInstanceStorages twoBuckets hashedDatabase = .ok () ∧
      ¬Canonical twoBuckets (NormalizeInstanceStorageSetting twoBuckets hashedDatabase) := by
  have request : validateInstanceStorages twoBuckets hashedDatabase = .ok () := by decide +kernel
  have result : validateInstanceStorages twoBuckets
      (NormalizeInstanceStorageSetting twoBuckets hashedDatabase)
        = .error "duplicate storage ID \"s3-17ab2a6bb370d6b3\"" := by decide +kernel
  exact ⟨request, fun canonical => nomatch result.symm.trans canonical.valid⟩

end Memos.Store.Storages

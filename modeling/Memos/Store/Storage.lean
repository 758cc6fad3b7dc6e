/-
The storages of an instance.

An attachment stores the id of the storage its object was written to.  The setting lists
the storages with their ids and says which is the default one, and beside them it keeps
the two fields of the time when there was one storage only.  Every read and write of the
setting normalizes it, which turns the old fields into a storage and back.

An update may edit a storage.  What it addresses is its namespace, the driver and for S3
the endpoint, the region and the bucket.  A storage edited to another namespace gets a
new id, a hash of the namespace, and the storages an update leaves out are kept.
-/
import Memos.Api.ContentModeration

namespace Memos.Store.Storages

open Api

/-! ### The setting -/

/-- The enumeration is open: any number of a request is kept. -/
inductive StorageType where
  | STORAGE_TYPE_UNSPECIFIED
  | STORAGE_TYPE_DATABASE
  | STORAGE_TYPE_LOCAL
  | STORAGE_TYPE_S3
  | unrecognized (number : Int)
deriving DecidableEq

structure StorageS3Config where
  accessKeyId : String
  accessKeySecret : String
  endpoint : String
  region : String
  bucket : String
  usePathStyle : Bool
  insecureSkipTlsVerify : Bool
deriving DecidableEq

structure Storage where
  id : String
  name : String
  type : StorageType
  s3Config : Option StorageS3Config
deriving DecidableEq

structure InstanceStorageSetting where
  /-- One of the two fields from before there were several storages. -/
  storageType : StorageType
  filepathTemplate : String
  uploadSizeLimitMb : Int
  s3Config : Option StorageS3Config
  storages : List Storage
  defaultStorageId : String
deriving DecidableEq

/-- What a message is before a field is set. -/
def InstanceStorageSetting.zero : InstanceStorageSetting :=
  ⟨.STORAGE_TYPE_UNSPECIFIED, "", 0, none, [], ""⟩

structure StorageLibrary where
  /-- `hex.EncodeToString` of `sha256.Sum256`. -/
  hexSum : String → String
  quote : String → String

/-! ### The identity of a storage -/

def databaseStorageID : String := "database"

def localStorageID : String := "local"

def normalizeEndpoint (endpoint : String) : List Char :=
  ((trimSpace endpoint.toList).reverse.dropWhile (· = '/')).reverse

def StorageNamespaceEqual (a b : Storage) : Bool :=
  if a.type ≠ b.type then false
  else if a.type ≠ .STORAGE_TYPE_S3 then true
  else
    match a.s3Config, b.s3Config with
    | some aConfig, some bConfig =>
        decide (normalizeEndpoint aConfig.endpoint = normalizeEndpoint bConfig.endpoint)
          && decide (trimSpace aConfig.region.toList = trimSpace bConfig.region.toList)
          && decide (trimSpace aConfig.bucket.toList = trimSpace bConfig.bucket.toList)
    | aConfig, bConfig => aConfig.isNone && bConfig.isNone

def storageID (library : StorageLibrary) (storage : Storage) : String :=
  match storage.type with
  | .STORAGE_TYPE_DATABASE => databaseStorageID
  | .STORAGE_TYPE_LOCAL => localStorageID
  | .STORAGE_TYPE_S3 =>
      match storage.s3Config with
      | none => ""
      | some config =>
          let place := normalizeEndpoint config.endpoint
            ++ '\x00' :: trimSpace config.region.toList
            ++ '\x00' :: trimSpace config.bucket.toList
          "s3-" ++ String.ofList ((library.hexSum (String.ofList place)).toList.take 16)
  | _ => ""

def defaultStorageName (storage : Storage) : String :=
  match storage.type with
  | .STORAGE_TYPE_DATABASE => "Database"
  | .STORAGE_TYPE_LOCAL => "Local"
  | .STORAGE_TYPE_S3 =>
      let bucket := trimSpace ((storage.s3Config.map (·.bucket)).getD "").toList
      if bucket ≠ [] then String.ofList bucket else "S3"
  | _ => "Storage"

/-- The three fields are filled in one after the other. -/
def normalizeStorage (library : StorageLibrary) (storage : Storage) : Storage :=
  let storage : Storage := { storage with
    type := if storage.type = .STORAGE_TYPE_UNSPECIFIED ∧ storage.s3Config.isSome then
      .STORAGE_TYPE_S3 else storage.type }
  let storage : Storage := { storage with
    id := if storage.id = "" then storageID library storage else storage.id }
  { storage with
    name := if trimSpace storage.name.toList = [] then defaultStorageName storage
      else storage.name }

def builtinStorage (library : StorageLibrary) (storageType : StorageType) : Storage :=
  normalizeStorage library ⟨"", "", storageType, none⟩

/-- The S3 configuration of the old field as a storage without an id. -/
def legacyS3Storage (config : StorageS3Config) : Storage :=
  ⟨"", "", .STORAGE_TYPE_S3, some config⟩

def FindStorage (setting : InstanceStorageSetting) (storageID : String) : Option Storage :=
  if storageID = "" then none else setting.storages.find? fun storage => storage.id = storageID

def GetDefaultStorage (setting : InstanceStorageSetting) : Option Storage :=
  FindStorage setting setting.defaultStorageId

def findEquivalentStorage (storages : List Storage) (target : Storage) : Option Storage :=
  storages.find? fun storage => StorageNamespaceEqual storage target

/-! ### Normalization -/

def normalizeStorages (library : StorageLibrary) (seenIDs : List String) :
    List Storage → List Storage
  | [] => []
  | storage :: rest =>
      let storage := normalizeStorage library storage
      if storage.id = "" ∨ storage.id ∈ seenIDs then normalizeStorages library seenIDs rest
      else storage :: normalizeStorages library (storage.id :: seenIDs) rest

def registerLegacyS3Config (library : StorageLibrary) (setting : InstanceStorageSetting) :
    InstanceStorageSetting :=
  match setting.s3Config with
  | none => setting
  | some config =>
      match findEquivalentStorage setting.storages (legacyS3Storage config) with
      | some _ => setting
      | none =>
          let storage := normalizeStorage library (legacyS3Storage config)
          if storage.id ≠ "" then { setting with storages := setting.storages ++ [storage] }
          else setting

def storageFromLegacySetting (library : StorageLibrary) (setting : InstanceStorageSetting) :
    Storage :=
  let storageType :=
    if setting.storageType = .STORAGE_TYPE_UNSPECIFIED then .STORAGE_TYPE_LOCAL
    else setting.storageType
  let storage := builtinStorage library storageType
  if storageType = .STORAGE_TYPE_S3 then
    normalizeStorage library { storage with s3Config := setting.s3Config }
  else storage

/-- The default of a setting that names none. -/
def selectLegacyDefault (library : StorageLibrary) (setting : InstanceStorageSetting) :
    InstanceStorageSetting :=
  if setting.defaultStorageId ≠ "" then setting
  else
    let legacyStorage := storageFromLegacySetting library setting
    match findEquivalentStorage setting.storages legacyStorage with
    | some existing => { setting with defaultStorageId := existing.id }
    | none =>
        if legacyStorage.id ≠ "" then
          { setting with
            storages := setting.storages ++ [legacyStorage]
            defaultStorageId := legacyStorage.id }
        else setting

/-- The default of a setting that names a storage it does not have. -/
def selectFallbackDefault (library : StorageLibrary) (setting : InstanceStorageSetting) :
    InstanceStorageSetting :=
  match FindStorage setting setting.defaultStorageId with
  | some _ => setting
  | none =>
      match setting.storages with
      | [] =>
          let fallback := builtinStorage library .STORAGE_TYPE_LOCAL
          { setting with storages := [fallback], defaultStorageId := fallback.id }
      | fallback :: _ => { setting with defaultStorageId := fallback.id }

/-- The entry that is moved is the first one with the id that is not in front already. -/
def moveDefaultStorageFirst (setting : InstanceStorageSetting) : InstanceStorageSetting :=
  match setting.storages with
  | [] => setting
  | first :: rest =>
      match rest.find? fun storage => storage.id = setting.defaultStorageId with
      | none => setting
      | some storage =>
          { setting with
            storages := storage :: first ::
              rest.eraseP fun storage => storage.id = setting.defaultStorageId }

def synchronizeLegacyStorageFields (setting : InstanceStorageSetting) : InstanceStorageSetting :=
  match GetDefaultStorage setting with
  | none => setting
  | some storage =>
      { setting with
        storageType := storage.type
        s3Config := storage.s3Config.or (setting.storages.findSome? (·.s3Config)) }

def NormalizeInstanceStorageSetting (library : StorageLibrary)
    (setting : InstanceStorageSetting) : InstanceStorageSetting :=
  let setting :=
    { setting with storages := normalizeStorages library [] setting.storages }
  let setting := registerLegacyS3Config library setting
  let setting := selectLegacyDefault library setting
  let setting := selectFallbackDefault library setting
  let setting := moveDefaultStorageFirst setting
  synchronizeLegacyStorageFields setting

/-! ### An update -/

def validateStorages (library : StorageLibrary) (seenIDs : List String) :
    List Storage → Except String (List String)
  | [] => .ok seenIDs
  | storage :: rest =>
      if storage.id = "" then .error "storage ID is required"
      else if storage.id ∈ seenIDs then
        .error ("duplicate storage ID " ++ library.quote storage.id)
      else if storage.type = .STORAGE_TYPE_UNSPECIFIED then
        .error ("storage " ++ library.quote storage.id ++ " type is required")
      else if storage.type = .STORAGE_TYPE_S3 ∧ storage.s3Config = none then
        .error ("storage " ++ library.quote storage.id ++ " S3 config is required")
      else validateStorages library (storage.id :: seenIDs) rest

def validateInstanceStorages (library : StorageLibrary) (setting : InstanceStorageSetting) :
    Except String Unit := do
  let seenIDs ← validateStorages library [] setting.storages
  if setting.defaultStorageId ∈ seenIDs then .ok ()
  else .error ("default storage " ++ library.quote setting.defaultStorageId ++ " is not configured")

/-- The request with the default storage it refers to without sending it again. -/
def adoptDefaultStorage (library : StorageLibrary) (incoming : InstanceStorageSetting)
    (existing : Option InstanceStorageSetting) : Except String InstanceStorageSetting :=
  if incoming.defaultStorageId ≠ ""
      ∧ FindStorage incoming incoming.defaultStorageId = none then
    match existing.bind (FindStorage · incoming.defaultStorageId) with
    | none =>
        .error ("default storage " ++ library.quote incoming.defaultStorageId
          ++ " is not configured")
    | some preserved => .ok { incoming with storages := incoming.storages ++ [preserved] }
  else .ok incoming

/-- The one storage of a request from before there were several, under the id it has. -/
def matchLegacyDefault (existing : List Storage) (incoming : InstanceStorageSetting) :
    InstanceStorageSetting :=
  match GetDefaultStorage incoming with
  | none => incoming
  | some incomingDefault =>
      match findEquivalentStorage existing incomingDefault with
      | none => incoming
      | some matching =>
          let renamed := { incomingDefault with
            id := matching.id
            name := if incomingDefault.name = defaultStorageName incomingDefault then matching.name
              else incomingDefault.name }
          { incoming with
            storages := incoming.storages.replaceF fun storage =>
              if storage.id = incoming.defaultStorageId then some renamed else none
            defaultStorageId := matching.id }

/-- The map of the existing storages, in which a later entry replaces an earlier one. -/
def existingByID (existing : List Storage) (id : String) : Option Storage :=
  existing.reverse.find? fun storage => storage.id = id

/-- The storage has the id of an existing one that addresses something else. -/
def namespaceChanged (existing : List Storage) (storage : Storage) : Bool :=
  (existingByID existing storage.id).any fun previous => !StorageNamespaceEqual previous storage

def findStorageCredentialSource (storages : List Storage) (targetConfig : StorageS3Config) :
    Option StorageS3Config :=
  (storages.filterMap (·.s3Config)).find? fun config =>
    config.accessKeyId = targetConfig.accessKeyId && config.accessKeySecret ≠ ""
      && decide (normalizeEndpoint config.endpoint = normalizeEndpoint targetConfig.endpoint)
      && decide (trimSpace config.region.toList = trimSpace targetConfig.region.toList)

def findLegacyStorageCredentialSource (storages : List Storage) (accessKeyID : String) :
    Option StorageS3Config :=
  (storages.filterMap (·.s3Config)).find? fun config =>
    config.accessKeyId = accessKeyID && config.accessKeySecret ≠ ""

/-- An empty secret stands for the one that is stored. -/
def backfillSecret (existing : List Storage) (legacyRequest : Bool) (previous : Option Storage)
    (config : StorageS3Config) : StorageS3Config :=
  if config.accessKeySecret ≠ "" then config
  else
    match previous.bind (·.s3Config) with
    | some previousConfig => { config with accessKeySecret := previousConfig.accessKeySecret }
    | none =>
        let candidate := (findStorageCredentialSource existing config).or
          (if legacyRequest then findLegacyStorageCredentialSource existing config.accessKeyId
          else none)
        match candidate with
        | some source => { config with accessKeySecret := source.accessKeySecret }
        | none => config

/-- A storage of the request, and whether it was given a new id. -/
structure IncomingStorage where
  storage : Storage
  reidentified : Bool
deriving DecidableEq

def reconcileStorage (library : StorageLibrary) (existing : List Storage) (legacyRequest : Bool)
    (storage : Storage) : IncomingStorage :=
  let changed := namespaceChanged existing storage
  let previous := if changed then none else existingByID existing storage.id
  { storage :=
      { storage with
        id := if changed then storageID library storage else storage.id
        s3Config := storage.s3Config.map (backfillSecret existing legacyRequest previous) }
    reidentified := changed }

/-- The default follows a storage to its new id. -/
def reconcileDefault (library : StorageLibrary) (existing : List Storage)
    (defaultStorageId : String) (storage : Storage) : String :=
  if namespaceChanged existing storage ∧ defaultStorageId = storage.id then
    storageID library storage
  else defaultStorageId

/-- Of two storages with one id the first is kept, or the first that got a new id. -/
def addDeduped (storage : IncomingStorage) : List IncomingStorage → List IncomingStorage
  | [] => [storage]
  | kept :: rest =>
      if kept.storage.id = storage.storage.id then
        if storage.reidentified && !kept.reidentified then storage :: rest else kept :: rest
      else kept :: addDeduped storage rest

def dedupeStorages (storages : List IncomingStorage) : List Storage :=
  (storages.foldl (fun deduped storage => addDeduped storage deduped) []).map (·.storage)

def secretMissing (storage : Storage) : Bool :=
  storage.s3Config.any fun config => config.accessKeyId ≠ "" && config.accessKeySecret = ""

/-- A request that lists no storages is one of the time when there was one storage. -/
def acceptRequest (library : StorageLibrary) (incoming : InstanceStorageSetting)
    (existing : Option InstanceStorageSetting) : Except String InstanceStorageSetting :=
  let requested := NormalizeInstanceStorageSetting library incoming
  if incoming.storages.isEmpty then
    match existing with
    | none => .ok requested
    | some existing => .ok (matchLegacyDefault existing.storages requested)
  else
    match validateInstanceStorages library incoming with
    | .error message => .error message
    | .ok () => .ok requested

/-- What a request asks for, as a normalized setting, before the ids are reconciled. -/
def requestedSetting (library : StorageLibrary) (incoming : InstanceStorageSetting)
    (existing : Option InstanceStorageSetting) : Except String InstanceStorageSetting :=
  match adoptDefaultStorage library incoming existing with
  | .error message => .error message
  | .ok incoming => acceptRequest library incoming existing

def PrepareInstanceStorageSettingUpdate (library : StorageLibrary)
    (incoming existing : Option InstanceStorageSetting) : Except String InstanceStorageSetting :=
  match incoming with
  | none => .error "storage setting is required"
  | some incoming =>
      let existing := existing.map (NormalizeInstanceStorageSetting library)
      match requestedSetting library incoming existing with
      | .error message => .error message
      | .ok requested =>
          match existing with
          | none => .ok requested
          | some existing =>
              -- An adopted storage is there only when the request names a default.
              let legacyRequest := incoming.storages.isEmpty && incoming.defaultStorageId = ""
              let storages := dedupeStorages
                (requested.storages.map
                  (reconcileStorage library existing.storages legacyRequest))
              match storages.find? secretMissing with
              | some storage =>
                  .error ("storage " ++ library.quote storage.id
                    ++ " access key secret is required")
              | none =>
                  let preserved := existing.storages.filter fun storage =>
                    storage.id ∉ storages.map (·.id)
                  .ok (NormalizeInstanceStorageSetting library
                    { requested with
                      storages := storages ++ preserved
                      defaultStorageId := requested.storages.foldl
                        (reconcileDefault library existing.storages) requested.defaultStorageId })

/-! ### The setting of an instance -/

def defaultInstanceStorageType : StorageType := .STORAGE_TYPE_LOCAL

def defaultInstanceUploadSizeLimitMb : Int := 30

def defaultInstanceFilepathTemplate : String :=
  "assets/\x7btimestamp\x7d_\x7buuid\x7d_\x7bfilename\x7d"

/-- The setting as it is read, from what is stored or nothing. -/
def GetInstanceStorageSetting (library : StorageLibrary)
    (stored : Option InstanceStorageSetting) : InstanceStorageSetting :=
  let setting := NormalizeInstanceStorageSetting library (stored.getD .zero)
  { setting with
    storageType := if setting.storageType = .STORAGE_TYPE_UNSPECIFIED then
      defaultInstanceStorageType else setting.storageType
    uploadSizeLimitMb := if setting.uploadSizeLimitMb = 0 then
      defaultInstanceUploadSizeLimitMb else setting.uploadSizeLimitMb
    filepathTemplate := if setting.filepathTemplate = "" then
      defaultInstanceFilepathTemplate else setting.filepathTemplate }

/-- `UpdateInstanceSetting` for the storage setting.  Storing it normalizes it once more. -/
def UpdateInstanceSetting (library : StorageLibrary) (stored : Option InstanceStorageSetting)
    (request : Option InstanceStorageSetting) : Except String (Option InstanceStorageSetting) := do
  let prepared ← PrepareInstanceStorageSettingUpdate library request
    (some (GetInstanceStorageSetting library stored))
  return some (NormalizeInstanceStorageSetting library prepared)

/-- The storage of an attachment, from its storage id or from the configuration it keeps. -/
def ResolveStorage (library : StorageLibrary) (setting : InstanceStorageSetting)
    (storageID : String) (legacyS3Config : Option StorageS3Config) : Except String Storage :=
  match FindStorage setting storageID with
  | some configuredStorage => .ok configuredStorage
  | none =>
      match legacyS3Config.or setting.s3Config with
      | some s3Config =>
          let legacyStorage := legacyS3Storage s3Config
          .ok ((findEquivalentStorage setting.storages legacyStorage).getD legacyStorage)
      | none =>
          if storageID ≠ "" then
            .error ("storage " ++ library.quote storageID ++ " is not configured")
          else .error "attachment storage is not configured"

end Memos.Store.Storages

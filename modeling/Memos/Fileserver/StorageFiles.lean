/-
The files below the storage directory.

An administrator uploads a file into a directory, lists what is there and deletes it; anyone
may fetch it.  A request names a file by its path from the storage directory.  It is trimmed,
backslashes are taken for slashes and dots are resolved, and what climbs out of the directory
is refused.

The tree of files is that of the operating system, without links.  The headers that every
file is served with and the body of a form that cannot be read are left out.
-/
import Memos.Api.ContentModeration
import Memos.Fileserver.Attachment
import Memos.Lib.FileTree
import Memos.Lib.SlashPath
import Memos.Lib.Scan
import Mathlib.Data.List.Sort

namespace Memos.Fileserver

open Store FileTree

abbrev Path : Type := List Char

structure StoredFile where
  bytes : List UInt8
  modTime : Int
deriving DecidableEq

abbrev Files : Type := Tree Path StoredFile

/-- Where the server runs. -/
structure Host where
  workingDirectory : Path
  absolute : SlashPath.isAbs '/' workingDirectory = true
  data : Path

def Join (first second : Path) : Path := SlashPath.join '/' '.' first second

/-- `filepath.Abs`. -/
def Abs (host : Host) (path : Path) : Path :=
  if SlashPath.isAbs '/' path then SlashPath.clean '/' '.' path else Join host.workingDirectory path

/-- The way that the operating system goes for a path. -/
def locate (host : Host) (path : Path) : List Path := SlashPath.elements '/' (Abs host path)

def storageRoot (host : Host) : Path := Join host.data "storage".toList

/-! ### Paths of requests -/

/-- The loop of `pathCleanSlash`, with what is kept so far. -/
def pathCleanSlashLoop : List Path → List Path → Path
  | out, [] => ['/'].intercalate out
  | out, part :: parts =>
      if part = [] ∨ part = ".".toList then pathCleanSlashLoop out parts
      else if part = "..".toList then
        if out = [] then "..".toList else pathCleanSlashLoop out.dropLast parts
      else pathCleanSlashLoop (out ++ [part]) parts

def pathCleanSlash (raw : Path) : Path := pathCleanSlashLoop [] (raw.splitOn '/')

def backslashToSlash (path : Path) : Path := path.map fun c => if c = '\\' then '/' else c

def normalizeStorageRelativePath (raw : Path) : Except String Path :=
  let raw := backslashToSlash (Trim.trim Api.isSpace raw)
  let raw := if raw.head? = some '/' then raw.tail else raw
  if raw = [] then .error "path is required"
  else
    let cleaned := pathCleanSlash raw
    if cleaned = ".".toList ∨ cleaned = [] ∨ "../".toList <+: cleaned ∨ "/../".toList <:+: cleaned then
      .error "invalid path"
    else if (cleaned.splitOn '/').any fun part =>
        decide (part = [] ∨ part = ".".toList ∨ part = "..".toList) then
      .error "invalid path"
    else .ok cleaned

def resolveStoragePath (host : Host) (relative : Path) : Except String Path := do
  let normalized ← normalizeStorageRelativePath relative
  let absRoot := Abs host (storageRoot host)
  let absPath := Abs host (Join absRoot normalized)
  match SlashPath.rel '/' '.' absRoot absPath with
  | none => .error "path escapes storage root"
  | some rel => if "..".toList <+: rel then .error "path escapes storage root" else .ok absPath

/-! ### The routes -/

structure StorageFileInfo where
  path : Path
  sizeBytes : Nat
  modTime : Int
  url : Path
deriving DecidableEq

def storagePublicPath (path : Path) : Path := "/storage".toList ++ '/' :: path

def requireAdmin (currentUser : Except String (Option UserRow)) : Except HTTPError UserRow :=
  match currentUser with
  | .error _ => .error ⟨500, "failed to get current user"⟩
  | .ok none => .error ⟨401, "unauthorized access"⟩
  | .ok (some user) => if user.role ≠ .Admin then .error ⟨403, "permission denied"⟩ else .ok user

def xssUnsafeTypes : List String :=
  ["text/html", "text/javascript", "application/javascript", "application/x-javascript", "text/xml",
    "application/xml", "application/xhtml+xml"]

def sanitizeContentType (mimeType : String) : String :=
  if mimeType.toLower ∈ xssUnsafeTypes then "application/octet-stream"
  else if mimeType.startsWith "text/" then mimeType ++ "; charset=utf-8" else mimeType

/-- What a visitor gets. -/
structure Served where
  /-- The file that was opened. -/
  file : Path
  name : Path
  contentType : String
  modTime : Int
  bytes : List UInt8
deriving DecidableEq

/-- The type is looked up by the extension. -/
def serveStorageFile (typeByExtension : Path → String) (host : Host) (files : Files)
    (relative : Path) : Except HTTPError Served :=
  match resolveStoragePath host relative with
  | .error _ => .error ⟨400, "invalid storage path"⟩
  | .ok absPath =>
      match files.stat (locate host absPath) with
      | .error .NotExist => .error ⟨404, "file not found"⟩
      | .error _ => .error ⟨500, "failed to stat file"⟩
      | .ok .directory => .error ⟨404, "file not found"⟩
      | .ok (.file file) =>
          let contentType := typeByExtension (SlashPath.ext '/' '.' absPath)
          let contentType := if contentType = "" then "application/octet-stream" else contentType
          .ok { file := absPath, name := SlashPath.base '/' '.' absPath,
                contentType := sanitizeContentType contentType, modTime := file.modTime,
                bytes := file.bytes }

/-- What is listed for a file, from the names that the walk has gone down to it. -/
def fileInfo (root : Path) (found : List Path × StoredFile) : Option StorageFileInfo :=
  (SlashPath.rel '/' '.' root (found.1.foldl Join root)).map fun rel =>
    { path := rel, sizeBytes := found.2.bytes.length, modTime := found.2.modTime,
      url := storagePublicPath rel }

/-- The order of the walk: that of the names, from the root on. -/
def walkedBefore (xs ys : List Path) : Bool :=
  !List.lex ys xs fun x y => List.lex x y fun c d => decide (c.toNat < d.toNat)

def listStorageFiles (host : Host) (files : Files) (currentUser : Except String (Option UserRow)) :
    Except HTTPError (List StorageFileInfo) := do
  let _ ← requireAdmin currentUser
  let root := storageRoot host
  match files.stat (locate host root) with
  | .error .NotExist => .ok []
  | .error _ => .error ⟨500, "failed to access storage root"⟩
  | .ok _ =>
      let found := (files.files (locate host root)).insertionSort fun x y => walkedBefore x.1 y.1
      match found.mapM (fileInfo root) with
      | none => .error ⟨500, "failed to list storage files"⟩
      | some infos => .ok infos

structure UploadFile where
  filename : Path
  content : List UInt8

/-- A form: the value of its field for the path, and the file in it. -/
structure UploadForm where
  path : Path
  file : Option UploadFile

/-- The path of an upload, from the directory and the name of the file. -/
def uploadPath (path filename : Path) : Path :=
  let directory := Trim.trim (fun c => decide (c = '/')) (backslashToSlash (Trim.trim Api.isSpace path))
  if directory ≠ [] then directory ++ '/' :: filename else filename

def uploadStorageFile (host : Host) (files : Files) (currentUser : Except String (Option UserRow))
    (form : Option UploadForm) (now : Int) : Except HTTPError (Files × StorageFileInfo) := do
  let _ ← requireAdmin currentUser
  match form with
  | none => .error ⟨400, "invalid multipart form"⟩
  | some form =>
      match form.file with
      | none => .error ⟨400, "file is required"⟩
      | some file =>
          let filename := SlashPath.base '/' '.' file.filename
          if filename = [] ∨ filename = ".".toList ∨ filename = "..".toList then
            .error ⟨400, "invalid filename"⟩
          else
            let relative := uploadPath form.path filename
            match resolveStoragePath host relative with
            | .error _ => .error ⟨400, "invalid storage path"⟩
            | .ok absPath =>
                match files.mkdirAll [] (locate host (SlashPath.dir '/' '.' absPath)) with
                | .error _ => .error ⟨500, "failed to create storage directory"⟩
                | .ok files =>
                    match files.write (locate host absPath) ⟨file.content, now⟩ with
                    | .error _ => .error ⟨500, "failed to create storage file"⟩
                    | .ok files =>
                        match normalizeStorageRelativePath relative with
                        | .error _ => .error ⟨500, "failed to normalize path"⟩
                        | .ok info =>
                            .ok (files,
                              { path := info, sizeBytes := file.content.length, modTime := now,
                                url := storagePublicPath info })

/-- The loop at the end of `deleteStorageFile`, for as many rounds as the path has letters. -/
def removeEmptyParents (host : Host) : Nat → Files → Path → Files
  | 0, files, _ => files
  | rounds + 1, files, dir =>
      if dir ≠ storageRoot host ∧ (storageRoot host ++ ['/']) <+: dir then
        match files.remove (locate host dir) with
        | .error _ => files
        | .ok files => removeEmptyParents host rounds files (SlashPath.dir '/' '.' dir)
      else files

def deleteStorageFile (host : Host) (files : Files) (currentUser : Except String (Option UserRow))
    (relative : Path) : Except HTTPError Files := do
  let _ ← requireAdmin currentUser
  match resolveStoragePath host relative with
  | .error _ => .error ⟨400, "invalid storage path"⟩
  | .ok absPath =>
      match files.stat (locate host absPath) with
      | .error .NotExist => .error ⟨404, "file not found"⟩
      | .error _ => .error ⟨500, "failed to stat file"⟩
      | .ok .directory => .error ⟨400, "path is a directory"⟩
      | .ok (.file _) =>
          match files.remove (locate host absPath) with
          | .error _ => .error ⟨500, "failed to delete file"⟩
          | .ok files => .ok (removeEmptyParents host absPath.length files (SlashPath.dir '/' '.' absPath))

end Memos.Fileserver

/-
Reading a ZIP archive that comes from outside.

Nothing is extracted.  The directory of the archive is gone through once, and is refused at
the first entry that could not be used: a name that is no clean relative path, a link or a
device, a name for the second time, or a size that is too large.  The contents are read
later, one entry at a time.

A name is a string of bytes, and need not be text.
-/
import Memos.Lib.SlashPath

namespace Memos.SafeArchive

abbrev ByteString := List UInt8

def byte (c : Char) : UInt8 := c.toUInt8

/-! ### Entries -/

def ModeDir : UInt32 := (1 : UInt32) <<< 31

def ModeSymlink : UInt32 := (1 : UInt32) <<< 27

def ModeDevice : UInt32 := (1 : UInt32) <<< 26

def ModeNamedPipe : UInt32 := (1 : UInt32) <<< 25

def ModeSocket : UInt32 := (1 : UInt32) <<< 24

/-- What an opened entry gives: its bytes, and what goes wrong after them. -/
structure Stream where
  content : ByteString
  fault : Option String

structure File where
  name : ByteString
  attributes : UInt32
  uncompressedSize64 : UInt64
  opened : Except String Stream

def File.Mode (f : File) : UInt32 :=
  if f.name.getLast? = some (byte '/') then f.attributes ||| ModeDir else f.attributes

def File.IsDir (f : File) : Bool := f.Mode &&& ModeDir ≠ 0

/-! ### Names -/

def trimSuffix (name : ByteString) : ByteString :=
  if name.getLast? = some (byte '/') then name.dropLast else name

def ValidPath (name : ByteString) : Bool :=
  (ByteArray.mk name.toArray).validateUTF8
    && (decide (name = [byte '.'])
      || (name.splitOn (byte '/')).all fun elem =>
          decide (elem ≠ []) && decide (elem ≠ [byte '.']) && decide (elem ≠ [byte '.', byte '.']))

def isUnsafe (n : ByteString) : Bool :=
  decide (n = [])
    || n.any (fun b => decide (b = byte '\\') || decide (b = byte ':') || decide (b = 0))
    || decide (n.head? = some (byte '/'))
    || decide (SlashPath.clean (byte '/') (byte '.') n ≠ n)
    || decide (n = [byte '.', byte '.'])
    || decide ([byte '.', byte '.', byte '/'] <+: n)
    || !ValidPath n

/-! ### The directory -/

structure Limits where
  files : Int
  totalBytes : UInt64
  fileBytes : UInt64

inductive ReadError where
  /-- "invalid ZIP". -/
  | invalid (cause : String)
  /-- "ZIP exceeds %d entries". -/
  | tooMany (files : Int)
  /-- "ZIP entry path exceeds 1024 bytes". -/
  | pathTooLong
  /-- "unsafe ZIP path %q". -/
  | unsafePath (name : ByteString)
  /-- "special ZIP entry %q". -/
  | special (name : ByteString)
  /-- "duplicate ZIP entry %q". -/
  | duplicate (name : ByteString)
  /-- "ZIP size limit exceeded at %q". -/
  | sizeLimit (name : ByteString)
  deriving DecidableEq

/-- What the loop has so far: the sum of the sizes, and the files by their names. -/
structure Accepting where
  total : UInt64
  files : List (ByteString × File)

def readEntry (limits : Limits) (s : Accepting) (f : File) : Except ReadError Accepting :=
  let n := trimSuffix f.name
  if 1024 < n.length then .error .pathTooLong
  else if isUnsafe n then .error (.unsafePath f.name)
  else if f.Mode &&& (ModeSymlink ||| ModeDevice ||| ModeNamedPipe ||| ModeSocket) ≠ 0 then
    .error (.special n)
  else if f.IsDir then .ok s
  else if n ∈ s.files.map Prod.fst then .error (.duplicate n)
  else if f.uncompressedSize64 > limits.fileBytes
      ∨ f.uncompressedSize64 > limits.totalBytes - s.total then .error (.sizeLimit n)
  else .ok { total := s.total + f.uncompressedSize64, files := s.files ++ [(n, f)] }

def readEntries (limits : Limits) (entries : List File) : Except ReadError Accepting :=
  entries.foldlM (readEntry limits) { total := 0, files := [] }

/-- `Read`, with what the directory of the archive was found to be. -/
def Read (directory : Except String (List File)) (limits : Limits) :
    Except ReadError (List (ByteString × File)) :=
  match directory with
  | .error cause => .error (.invalid cause)
  | .ok entries =>
      if (entries.length : Int) > limits.files then .error (.tooMany limits.files)
      else (readEntries limits entries).map Accepting.files

/-! ### Contents -/

/-- Reads all there is before the limit.  A stream that ends before it may end with a fault. -/
def readAll (r : Stream) (limit : Int64) : Except String ByteString :=
  let n := limit.toInt.toNat
  match r.fault with
  | some fault => if r.content.length < n then .error fault else .ok (r.content.take n)
  | none => .ok (r.content.take n)

def Bytes (f : File) (limit : Int64) : Except String ByteString := do
  let r ← f.opened
  let b ← readAll r (limit + 1)
  if (b.length : Int) > limit.toInt ∨ b.length ≠ f.uncompressedSize64.toNat then
    .error "invalid ZIP size"
  else
    return b

end Memos.SafeArchive

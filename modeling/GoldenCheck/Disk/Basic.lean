import GoldenCheck.Disk.Path

/-!
# Disks

A disk holds directories and files by the names on the way from the root. Paths are followed from
the root or from the working directory.

* `Entry`, `Disk`, `DiskError`;
* `Disk.resolve`: where a path leads;
* `Disk.read`, `Disk.readText`, `Disk.isFile`, `Disk.canonical`;
* `Disk.write`, `Disk.makeDirectory`.
-/

namespace GoldenCheck

/-- What a name on a disk stands for. -/
inductive Entry where
  | file (content : ByteArray)
  | directory
deriving Inhabited

inductive DiskError where
  | notFound
  | notDirectory
  | isDirectory
  | nameTooLong
  | zeroInPath
  | notText
  /-- A fault of another kind of source. -/
  | other (text : String)
deriving DecidableEq, Repr, Inhabited

def DiskError.message : DiskError → String
  | notFound => "No such file or directory (os error 2)"
  | notDirectory => "Not a directory (os error 20)"
  | isDirectory => "Is a directory (os error 21)"
  | nameTooLong => "File name too long (os error 36)"
  | zeroInPath => "file name contained an unexpected NUL byte"
  | notText => "stream did not contain valid UTF-8"
  | other text => text

/-- Directories and files by the names on the way from the root, and the working directory. -/
structure Disk where
  working : List String := []
  entries : List (List String × Entry) := []
deriving Inhabited

namespace Disk

/-- A name may take this many bytes. -/
def maxNameBytes : Nat := 255

/-- A path must take fewer bytes. -/
def maxPathBytes : Nat := 4096

/-- What stands at a place. The way to the working directory is always there. -/
def entry? (disk : Disk) (place : List String) : Option Entry :=
  if place.isPrefixOf disk.working then some .directory else disk.entries.lookup place

/-- Follows segments from a place. Every segment, also an empty one, needs a directory. -/
def follow (disk : Disk) (place : List String) : List String → Except DiskError (List String)
  | [] => .ok place
  | segment :: segments =>
    match disk.entry? place with
    | some .directory =>
      if segment = "" ∨ segment = "." then disk.follow place segments
      else if segment = ".." then disk.follow place.dropLast segments
      else if segment.utf8ByteSize > maxNameBytes then .error .nameTooLong
      else if (disk.entry? (place ++ [segment])).isNone then .error .notFound
      else disk.follow (place ++ [segment]) segments
    | some (.file _) => .error .notDirectory
    | none => .error .notFound

/-- The place where the way of a path begins. -/
def origin (disk : Disk) (path : Path) : List String :=
  if path.isRooted then [] else disk.working

/-- The place that a path leads to. -/
def resolve (disk : Disk) (path : Path) : Except DiskError (List String) :=
  if path.spelling.isEmpty then .error .notFound
  else if path.spelling.toList.contains '\x00' then .error .zeroInPath
  else if path.spelling.utf8ByteSize ≥ maxPathBytes then .error .nameTooLong
  else disk.follow (disk.origin path) path.segments

def find (disk : Disk) (path : Path) : Except DiskError Entry :=
  match disk.resolve path with
  | .error e => .error e
  | .ok place =>
    match disk.entry? place with
    | some entry => .ok entry
    | none => .error .notFound

def read (disk : Disk) (path : Path) : Except DiskError ByteArray :=
  match disk.find path with
  | .ok (.file content) => .ok content
  | .ok .directory => .error .isDirectory
  | .error e => .error e

/-- The content of a file that holds UTF-8 text. -/
def readText (disk : Disk) (path : Path) : Except DiskError String :=
  match disk.read path with
  | .error e => .error e
  | .ok content =>
    match String.fromUTF8? content with
    | some text => .ok text
    | none => .error .notText

def isFile (disk : Disk) (path : Path) : Bool :=
  match disk.find path with
  | .ok (.file _) => true
  | _ => false

/-- The one spelling of the place that a path leads to; a path that leads nowhere stays. -/
def canonical (disk : Disk) (path : Path) : Path :=
  match disk.resolve path with
  | .ok place => .ofNames place
  | .error _ => path

/-! ## Changes -/

/-- Puts an entry at a place. -/
def put (disk : Disk) (place : List String) (entry : Entry) : Disk :=
  { disk with entries := (place, entry) :: disk.entries.filter (·.1 != place) }

/-- Makes a directory at a place unless something is there. -/
def provide (disk : Disk) (place : List String) : Disk :=
  if (disk.entry? place).isNone then disk.put place .directory else disk

/-- Follows segments from a place, and makes every directory on the way that is not there, also one
that the way leaves again. -/
def makeWay (disk : Disk) (place : List String) : List String → List String × Disk
  | [] => (place, disk)
  | segment :: segments =>
    if segment = "" ∨ segment = "." then disk.makeWay place segments
    else if segment = ".." then disk.makeWay place.dropLast segments
    else (disk.provide (place ++ [segment])).makeWay (place ++ [segment]) segments

/-- Makes a directory and those on the way to it. -/
def makeDirectory (disk : Disk) (path : Path) : Disk :=
  (disk.makeWay (disk.origin path) path.segments).2

/-- Writes a file, in place of the one that is there, and makes the directories on the way. -/
def write (disk : Disk) (path : Path) (content : ByteArray) : Disk :=
  let (directory, disk) := disk.makeWay (disk.origin path) path.segments.dropLast
  disk.put (directory ++ path.segments.getLast?.toList) (.file content)

end Disk

end GoldenCheck

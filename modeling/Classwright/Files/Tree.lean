import Classwright.Files.Path

/-!
# Files

`FileSystem` is what programs may do with files. `FileTree` is a file system as a value: the files
and directories that can be reached from one directory.
-/

namespace Classwright

/-- What a file system refuses. -/
inductive FileFault
  | notFound
  | notADirectory
  | isADirectory
  | exists_
  | tooLong
  | invalidName
  | invalidText
  | other (text : String)
deriving DecidableEq, Repr

def FileFault.text : FileFault → String
  | notFound => "No such file or directory (os error 2)"
  | notADirectory => "Not a directory (os error 20)"
  | isADirectory => "Is a directory (os error 21)"
  | exists_ => "File exists (os error 17)"
  | tooLong => "File name too long (os error 36)"
  | invalidName => "file name contained an unexpected NUL byte"
  | invalidText => "stream did not contain valid UTF-8"
  | other text => text

/-- The operations on files in which commands are written. -/
class FileSystem (m : Type → Type) where
  readText : Path → m (Except FileFault String)
  /-- The names of the files and directories in a directory. -/
  list : Path → m (Except FileFault (List String))
  /-- Creates a directory and those that it lies in, as far as they are missing. -/
  createDirectories : Path → m (Except FileFault Unit)
  writeText : Path → String → m (Except FileFault Unit)

/-- Files and directories, by their parts from the root of the tree. -/
structure FileTree where
  files : List (List String × String) := []
  directories : List (List String) := []

namespace FileTree

/-- The parts under which absolute paths lie. -/
def absoluteRoot : List String := ["/"]

def file? (t : FileTree) (place : List String) : Option String :=
  (t.files.find? (·.1 == place)).map (·.2)

def isDirectory (t : FileTree) (place : List String) : Bool :=
  place.isEmpty || place == absoluteRoot || t.directories.contains place

/-- Why a place cannot be gone through. -/
def obstacle (t : FileTree) (place : List String) : FileFault :=
  if (t.file? place).isSome then .notADirectory else .notFound

/-- The place that the parts lead to from `place`. All but the last must be directories. -/
def follow (t : FileTree) (place : List String) : List String → Except FileFault (List String)
  | [] => .ok place
  | part :: parts =>
    if !t.isDirectory place then .error (t.obstacle place)
    else if part = "" ∨ part = "." then t.follow place parts
    else if part = ".." then
      if place.isEmpty then .error .notFound
      else t.follow (if place = absoluteRoot then place else place.dropLast) parts
    else if 255 < part.utf8ByteSize then .error .tooLong
    else t.follow (place ++ [part]) parts

/-- The place of a path. -/
def locate (t : FileTree) (p : Path) : Except FileFault (List String) :=
  if p.text.toList.contains '\x00' then .error .invalidName
  else if p.isBlank then .error .notFound
  else t.follow (if p.isAbsolute then absoluteRoot else []) p

def readText (t : FileTree) (p : Path) : Except FileFault String := do
  let place ← t.locate p
  match t.file? place with
  | some content => .ok content
  | none => .error (if t.isDirectory place then .isADirectory else .notFound)

/-- The name by which something below a place hangs directly on it. -/
def childName? (place below : List String) : Option String :=
  if below.dropLast = place ∧ below ≠ [] then below.getLast? else none

def list (t : FileTree) (p : Path) : Except FileFault (List String) := do
  let place ← t.locate p
  if t.isDirectory place then
    .ok ((t.files.map (·.1) ++ t.directories).filterMap (childName? place))
  else .error (t.obstacle place)

/-- Puts a file at a place whose directory exists. -/
def put (t : FileTree) (place : List String) (content : String) : FileTree :=
  { t with files := (place, content) :: t.files.filter (·.1 != place) }

def writeText (t : FileTree) (p : Path) (content : String) : Except FileFault FileTree := do
  let place ← t.locate p
  if t.isDirectory place then .error .isADirectory
  else if p.getLast? = some "" then .error .isADirectory
  else if !t.isDirectory place.dropLast then .error (t.obstacle place.dropLast)
  else .ok (t.put place content)

/-- Adds the missing ones of the directories from `place` along the parts. -/
def createFrom (t : FileTree) (place : List String) : List String → Except FileFault FileTree
  | [] => .ok t
  | part :: parts =>
    if part = "" ∨ part = "." then t.createFrom place parts
    else if part = ".." then
      if place.isEmpty then .error .notFound
      else t.createFrom (if place = absoluteRoot then place else place.dropLast) parts
    else if 255 < part.utf8ByteSize then .error .tooLong
    else
      let next := place ++ [part]
      if t.isDirectory next then t.createFrom next parts
      else if (t.file? next).isSome then
        .error (if parts.all (·.isEmpty) then .exists_ else .notADirectory)
      else createFrom { t with directories := next :: t.directories } next parts

def createDirectories (t : FileTree) (p : Path) : Except FileFault FileTree :=
  if p.text.toList.contains '\x00' then .error .invalidName
  else t.createFrom (if p.isAbsolute then absoluteRoot else []) p

/-- A tree with the given files and the directories that they lie in. -/
def ofFiles (files : List (String × String)) : FileTree :=
  files.foldl (fun t (name, content) =>
    let p := Path.ofText name
    let withParent := (t.createDirectories p.parent).toOption.getD t
    (withParent.writeText p content).toOption.getD withParent) {}

end FileTree

instance : FileSystem (StateM FileTree) where
  readText p := return (← get).readText p
  list p := return (← get).list p
  createDirectories p := fun t =>
    match t.createDirectories p with
    | .ok t => (.ok (), t)
    | .error f => (.error f, t)
  writeText p content := fun t =>
    match t.writeText p content with
    | .ok t => (.ok (), t)
    | .error f => (.error f, t)

end Classwright

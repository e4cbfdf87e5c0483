import Classwright.Files.Tree
import Classwright.Type.Codec
import Classwright.Type.Table

/-!
# Types in directories

Descriptors can be kept as files, one in each, in directories that are searched in order. A name
that is declared already is left alone, so that of several files the first one counts.
-/

namespace Classwright

/-- Why types cannot be read from directories. -/
inductive CatalogFault
  | file (fault : FileFault)
  | badDescriptor (path : Path)
deriving DecidableEq, Repr

namespace Catalog

/-- What separates directories in an argument. -/
def separator : String := ":"

/-- Directories as one argument of a program. -/
def argument (entries : List Path) : String :=
  String.intercalate separator (entries.map Path.text)

def descriptorExtension : String := "json"

/-- The names of files that hold descriptors, in the order in which they are read. -/
def descriptorFiles (names : List String) : List String :=
  (names.filter fun n => Path.extension? n == some descriptorExtension).mergeSort
    fun a b => decide (a ≤ b)

variable {m : Type → Type} [Monad m] [FileSystem m]

/-- Reading adds types to a table, which keeps them if a later file is refused. -/
abbrev Reading (m : Type → Type) := ExceptT CatalogFault (StateT TypeTable m)

def orFault {α : Type} (action : m (Except FileFault α)) : Reading m α :=
  ExceptT.mk (StateT.lift ((Except.mapError CatalogFault.file) <$> action))

/-- Declares the type in the file unless its name is declared; counts those that are new. -/
def readFile (path : Path) : Reading m Nat := do
  let text ← orFault (FileSystem.readText path)
  match Descriptor.ofText? text with
  | none => throw (.badDescriptor path)
  | some d =>
    let types ← get
    set (types.defineIfAbsent d)
    return if types.contains d.name then 0 else 1

def readFiles (directory : Path) : List String → Reading m Nat
  | [] => return 0
  | name :: names => do
    let new ← readFile (directory.join [name])
    let others ← readFiles directory names
    return new + others

/-- Declares the types of all directories; counts those that are new. -/
def readDirectories : List Path → Reading m Nat
  | [] => return 0
  | directory :: directories => do
    let names ← orFault (FileSystem.list directory)
    let new ← readFiles directory (descriptorFiles names)
    let others ← readDirectories directories
    return new + others

/-- The file in which the type of a name is written. -/
def descriptorPath (directory : Path) (name : String) : Path :=
  directory.join (Path.ofText (name ++ "." ++ descriptorExtension))

def writeTypes (directory : Path) : List Descriptor → ExceptT FileFault m Unit
  | [] => return ()
  | d :: ds => do
    ExceptT.mk (FileSystem.writeText (descriptorPath directory d.name) d.toText)
    writeTypes directory ds

/-- Writes every type to a file in the directory; counts them. -/
def writeDirectory (directory : Path) (types : TypeTable) : ExceptT FileFault m Nat := do
  ExceptT.mk (FileSystem.createDirectories directory)
  writeTypes directory types.types
  return types.size

end Catalog

end Classwright

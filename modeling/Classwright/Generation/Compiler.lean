import Classwright.Check.Compile
import Classwright.Code.Codec
import Classwright.Text.Case
import Classwright.Type.Catalog

/-!
# Compilers

A compiler reads the source that lies in a directory of a file tree and leaves the compiled class
beside it. That a source has errors is an answer of the compiler; only what it cannot do is a fault.
-/

namespace Classwright

structure CompileRequest where
  types : TypeTable
  /-- Directories in which the types are also found. -/
  entries : List Path
  source : Path

inductive CompileOutcome
  | succeeded
  | failed (diagnostics : List String)
  | broken (fault : FileFault)
deriving DecidableEq

/-- A compiler may answer differently each time; it is told how often it was asked before. -/
abbrev Compiler := Nat → CompileRequest → StateM FileTree CompileOutcome

/-- The file that holds the compiled class of a name. -/
def unitPath (directory : Path) (className : String) : Path :=
  directory.join (Path.ofText (Code.fileName className))

/-- Compiles a source file and writes the class beside it. -/
def compileFile {m : Type → Type} [Monad m] [FileSystem m] (types : TypeTable) (source : Path) :
    m CompileOutcome := do
  match ← FileSystem.readText source with
  | .error f => return .broken f
  | .ok text =>
    match compileSource types text with
    | .error e => return .failed (e.reports text)
    | .ok code =>
      match ← FileSystem.writeText (unitPath source.parent code.name) code.toText with
      | .error f => return .broken f
      | .ok _ => return .succeeded

/-- The compiler of this library. -/
def scriptCompiler : Compiler := fun _ request => compileFile request.types request.source

/-! ## Compilers that are programs of their own -/

/-- How a program ended. -/
structure ProgramResult where
  status : Nat
  output : String
  errors : String

/-- The programs that can be started, by name; they get their arguments and may change files. -/
abbrev Programs := String → Option (List String → StateM FileTree ProgramResult)

namespace Command

/-- The directory beside the source in which the program finds the types. -/
def typesDirectory : String := ".types"

/-- The arguments after those of the configuration. -/
def arguments (request : CompileRequest) : List String :=
  ["-cp", Catalog.argument (request.source.parent.join [typesDirectory] :: request.entries),
    request.source.text]

def linesOf (text : String) : List String := (Text.lines text.toList).map String.ofList

/-- What a program that failed has written, or at least its status. -/
def diagnostics (program : String) (result : ProgramResult) : List String :=
  match (linesOf result.errors ++ linesOf result.output).filter
      fun l => !(Text.trim l.toList).isEmpty with
  | [] => [program ++ " exited with exit status: " ++ toString result.status]
  | written => written

end Command

/-- Starts a program with the types in a directory beside the source. -/
def commandCompiler (programs : Programs) (program : String) (args : List String) : Compiler :=
  fun _ request => do
    let directory := request.source.parent.join [Command.typesDirectory]
    match ← (Catalog.writeDirectory directory request.types).run with
    | .error f => return .broken f
    | .ok _ =>
      match programs program with
      | none => return .broken .notFound
      | some run => do
        let result ← run (args ++ Command.arguments request)
        return if result.status = 0 then .succeeded
          else .failed (Command.diagnostics program result)

end Classwright

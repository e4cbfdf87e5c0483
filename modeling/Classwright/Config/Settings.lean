import Classwright.Files.Tree
import Classwright.Text.Case
import Classwright.Toml.Document
import Classwright.Type.Catalog

/-!
# Settings

The settings of a generator, as a configuration file gives them. What a file leaves out has a
standard value, and keys that are not known mean nothing.
-/

namespace Classwright

inductive CompilerChoice
  | script
  | command (program : String) (args : List String)
deriving DecidableEq, Repr

/-- What the kind of compiler is called. -/
def CompilerChoice.name : CompilerChoice → String
  | script => "script"
  | command _ _ => "command"

structure Settings where
  tempPrefix : String := "rtc"
  workDirectory : Option Path := none
  entries : List Path := []
  compiler : CompilerChoice := .script
  maxCallDepth : Nat := 256
deriving DecidableEq, Repr

inductive SettingsFault
  | emptyTempPrefix
  | separatorInTempPrefix (tempPrefix : String)
  | noCallDepth
  | noProgram
deriving DecidableEq, Repr

def SettingsFault.message : SettingsFault → String
  | emptyTempPrefix => "Invalid config: temp_prefix cannot be empty"
  | separatorInTempPrefix tempPrefix =>
    "Invalid config: temp_prefix '" ++ tempPrefix ++ "' must not contain path separators"
  | noCallDepth => "Invalid config: max_call_depth must be at least 1"
  | noProgram => "Invalid config: compiler.program cannot be empty"

/-- Why there are no settings. -/
inductive SettingsError
  | unreadable (fault : FileFault)
  | malformed
  | invalid (fault : SettingsFault)
deriving DecidableEq, Repr

def SettingsError.message : SettingsError → String
  | unreadable fault => "Failed to read config file: " ++ fault.text
  | malformed => "Failed to parse config"
  | invalid fault => fault.message

namespace Settings

open Toml (Node Fields)

def text? : Node → Option String
  | .scalar (.text s) => some s
  | _ => none

def texts? : Node → Option (List String)
  | .array items => items.mapM text?
  | _ => none

def count? : Node → Option Nat
  | .scalar (.integer i) => if 0 ≤ i then some i.toNat else none
  | _ => none

/-- The value of a key, or a standard value if there is none. -/
def read {α : Type} (fields : Fields) (key : String) (standard : α) (decode : Node → Option α) :
    Option α :=
  match fields.find key with
  | none => some standard
  | some node => decode node

/-- The compiler as a table that names its kind, or as a list that starts with the kind. -/
def compiler? : Node → Option CompilerChoice
  | .table _ fields => do
    match ← text? (← Toml.Fields.find fields "kind") with
    | "script" => return .script
    | "command" =>
      return .command (← text? (← Toml.Fields.find fields "program")) (← read fields "args" [] texts?)
    | _ => none
  | .array (kind :: rest) => do
    match ← text? kind, rest with
    | "script", [] => return .script
    | "command", [program] => return .command (← text? program) []
    | "command", [program, args] => return .command (← text? program) (← texts? args)
    | _, _ => none
  | _ => none

def decode? (fields : Fields) : Option Settings := do
  let standard : Settings := {}
  return {
    tempPrefix := ← read fields "temp_prefix" standard.tempPrefix text?
    workDirectory := ← read fields "work_dir" none fun n => (text? n).map (some ∘ Path.ofText)
    entries := ← read fields "classpath" [] fun n => (texts? n).map (·.map Path.ofText)
    compiler := ← read fields "compiler" standard.compiler compiler?
    maxCallDepth := ← read fields "max_call_depth" standard.maxCallDepth count? }

/-- The first fault of the settings. -/
def fault? (s : Settings) : Option SettingsFault :=
  if s.tempPrefix.isEmpty then some .emptyTempPrefix
  else if s.tempPrefix.contains '/' || s.tempPrefix.contains '\\' then
    some (.separatorInTempPrefix s.tempPrefix)
  else if s.maxCallDepth = 0 then some .noCallDepth
  else
    match s.compiler with
    | .script => none
    | .command program _ =>
      if (Text.trim program.toList).isEmpty then some .noProgram else none

def validate (s : Settings) : Except SettingsError Unit :=
  match s.fault? with
  | some f => .error (.invalid f)
  | none => .ok ()

/-- Settings from the text of a configuration. -/
def ofText (text : String) : Except SettingsError Settings :=
  match (Toml.parse? text).bind decode? with
  | none => .error .malformed
  | some s => s.validate.map fun _ => s

/-- Sees relative paths from the directory of the configuration. -/
def rebase (s : Settings) (base : Path) : Settings :=
  { s with workDirectory := s.workDirectory.map base.join, entries := s.entries.map base.join }

/-- Settings from a file. -/
def ofFile {m : Type → Type} [Monad m] [FileSystem m] (path : Path) :
    m (Except SettingsError Settings) := do
  match ← FileSystem.readText path with
  | .error f => return .error (.unreadable f)
  | .ok text => return (ofText text).map (·.rebase path.parent)

end Settings

end Classwright

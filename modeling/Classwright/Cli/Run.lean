import Classwright.Cli.Help
import Classwright.Config.Settings
import Classwright.Generation.Proxy

/-!
# Commands

What the program does with files: it prints the source for a contract, compiles a source file, or
generates a proxy for a contract and describes its class.
-/

namespace Classwright

/-- A compiler as the settings choose it. -/
def CompilerChoice.build (programs : Programs) : CompilerChoice → Compiler
  | script => scriptCompiler
  | command program args => commandCompiler programs program args

/-- A generator as the settings describe it, over a registry that holds their types. -/
def Settings.generator (s : Settings) (programs : Programs) (hooks : Hooks) (registry : Nat)
    (workplace : Path) : Generator where
  hooks := hooks
  registry := registry
  entries := s.entries
  workplace := workplace
  compiler := s.compiler.build programs
  loader := unitLoader s.maxCallDepth

namespace Cli

/-- An error as it is shown: what was tried, and why it failed. -/
inductive CommandError
  | report (reasons : List String)
  /-- Diagnostics go before the error. -/
  | diagnosed (diagnostics : List String) (reason : String)

def CommandError.text : CommandError → String
  | report reasons => "Error: " ++ String.intercalate ": " reasons ++ "\n"
  | diagnosed diagnostics reason =>
    String.join (diagnostics.map (· ++ "\n")) ++ "Error: " ++ reason ++ "\n"

/-- A failure and what lies behind it. -/
def reasons : Failure → List String
  | .file f => [f.text, f.text]
  | f => [f.message]

def catalogReasons : CatalogFault → List String
  | .file f => reasons (.file f)
  | .badDescriptor path => reasons (.load path.text .badDescriptor)

def settingsReasons : SettingsError → List String
  | .unreadable f => [(SettingsError.unreadable f).message, f.text]
  | .malformed => [SettingsError.malformed.message, "malformed document"]
  | .invalid f => [f.message]

variable {m : Type → Type} [Monad m] [FileSystem m]

abbrev Action (m : Type → Type) := ExceptT CommandError m

def fail {α : Type} (reasons : List String) : Action m α := throw (.report reasons)

def loadContract (path : Path) : Action m Descriptor := do
  match ← ExceptT.lift (FileSystem.readText path) with
  | .error f => fail ["failed to read contract " ++ path.text, f.text]
  | .ok text =>
    match Descriptor.ofText? text with
    | some d => return d
    | none => fail ["invalid contract descriptor " ++ path.text, "malformed document"]

def loadSettings : Option Path → Action m Settings
  | none => return {}
  | some path => do
    match ← ExceptT.lift (Settings.ofFile path) with
    | .error e => fail (("failed to load config " ++ path.text) :: settingsReasons e)
    | .ok s => return s

/-- A registry of the types in some directories. -/
def loadTypes (context : List String) (entries : List Path) : Action m Registry := do
  match ← ExceptT.lift (Registry.readDirectories {} entries) with
  | (.error f, _) => fail (context ++ catalogReasons f)
  | (.ok _, types) => return types

/-- The directories in arguments, each of which may hold several. -/
def splitEntries (values : List String) : List Path :=
  ((values.flatMap fun v => (Text.splitAt ':' v.toList).map String.ofList).filter
    (!·.isEmpty)).map Path.ofText

def synth (contract : Path) (stub : Bool) (config : Option Path) : Action m String := do
  let d ← loadContract contract
  let s ← loadSettings config
  let _ ← loadTypes [] s.entries
  match synthesize (if stub then .stub else .delegating) d (classNameFor d.name) with
  | .error e => fail [e.message]
  | .ok source => return source.text

def compile (source : Path) (classpath : List String) (config : Option Path) : Action m String := do
  let s ← loadSettings config
  let types ← loadTypes ["failed to load classpath entries"] (s.entries ++ splitEntries classpath)
  match ← ExceptT.lift (compileFile types.table source) with
  | .broken f => fail ["failed to compile " ++ source.text, f.text]
  | .failed ds =>
    throw (.diagnosed ds (source.text ++ " had " ++ toString ds.length ++ " error(s)"))
  | .succeeded => return ""

def modifier (v : Visibility) : String := (v.keyword?.map (· ++ " ")).getD ""

/-- The class of a proxy and its members, a line for each. -/
def describe (contract : Descriptor) (c : Code.Class) : String :=
  String.join (([contract.name ++ " -> " ++ c.name, "  extends " ++ c.superclass]
    ++ c.interfaces.map ("  implements " ++ ·)
    ++ c.fields.map (fun f =>
      "  field " ++ modifier f.visibility ++ f.type.canonicalName ++ " " ++ f.name)
    ++ c.methods.map fun m =>
      "  method " ++ modifier m.visibility ++ m.returnType.canonicalName ++ " " ++ m.signature).map
    (· ++ "\n"))

/-- A handler that refuses every call. -/
def refuse : HandlerCode := fun _ m _ => .fail (.handler (m.name ++ " called during check"))

/-- Makes a proxy for the contract and describes its class. -/
def proxyReport (programs : Programs) (s : Settings) (types : Registry) (contract : Descriptor) :
    Except (List String) String :=
  let (registry, store) := Store.addRegistry {} types
  let (handler, store) := store.addHandler refuse
  let g := s.generator programs .delegating registry (Path.ofText s.tempPrefix)
  match augment contract handler (g, store) with
  | (.ok o, _) => .ok (describe contract o.cls.code)
  | (.error (.failed f), _) => .error (reasons f)
  | (.error .exhausted, _) => .error []

def check (programs : Programs) (contract : Path) (config : Option Path) : Action m String := do
  let d ← loadContract contract
  let s ← loadSettings config
  let types ← loadTypes [] s.entries
  match s.workDirectory with
  | none => pure ()
  | some directory =>
    if d.isInterface then
      match ← ExceptT.lift (FileSystem.createDirectories directory) with
      | .error f => fail (reasons (.file f))
      | .ok _ => pure ()
  match proxyReport programs s types d with
  | .error reasons => fail reasons
  | .ok report => return report

def execute (programs : Programs) (config : Option Path) : Command → Action m String
  | .synth contract stub => synth contract stub config
  | .compile source classpath => compile source classpath config
  | .check contract => check programs contract config

/-- Status of a command line that is wrong. -/
def usageStatus : Nat := 2

/-- Runs the program with arguments. -/
def run (programs : Programs) (args : List String) : m ProgramResult := do
  match parse? args with
  | none => return ⟨usageStatus, "", helpText .program⟩
  | some (.help topic) => return ⟨0, helpText topic, ""⟩
  | some .version => return ⟨0, versionText, ""⟩
  | some (.run config command) =>
    match ← (execute programs config command).run with
    | .ok output => return ⟨0, output, ""⟩
    | .error e => return ⟨1, "", e.text⟩

end Cli

end Classwright

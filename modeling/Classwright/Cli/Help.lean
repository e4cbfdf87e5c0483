import Classwright.Cli.Arguments

/-!
# Help

What the program prints about its command line: for each command the way to write it, its operand
and its switches.
-/

namespace Classwright.Cli

/-- Something that may be written on a command line, and what it is for. -/
structure HelpEntry where
  form : String
  purpose : String

/-- Entries one below the other, with their purposes in one column. -/
def helpSection (title : String) (entries : List HelpEntry) : String :=
  let width := entries.foldl (fun w e => max w e.form.length) 0
  let line (e : HelpEntry) : String :=
    let gap := List.replicate (width - e.form.length + 2) ' '
    "  " ++ e.form ++ String.ofList gap ++ e.purpose ++ "\n"
  "\n" ++ title ++ ":\n" ++ String.join (entries.map line)

/-- The name, the operands behind it, and what it does. -/
def helpHead (purpose usage : String) : String := purpose ++ "\n\nUsage: morph " ++ usage ++ "\n"

namespace CommandName

def purpose : CommandName → String
  | synth => "Print the class source synthesized for a contract"
  | compile => "Compile a class source file into a unit beside it"
  | check => "Generate a proxy class for a contract and list its members"

def operand : CommandName → HelpEntry
  | synth | check => ⟨"<CONTRACT>", "Contract descriptor (JSON)"⟩
  | compile => ⟨"<SOURCE>", "Source file"⟩

/-- The switches that only this command knows. -/
def switches : CommandName → List HelpEntry
  | synth =>
    [⟨"    --stub", "Stub every method with a \"not implemented\" throw instead of delegating"⟩]
  | compile =>
    [⟨"-c, --classpath <CLASSPATH>",
      "Directories of JSON type descriptors, path-separator delimited"⟩]
  | check => []

end CommandName

def helpCommand : HelpEntry :=
  ⟨"help", "Print this message or the help of the given subcommand(s)"⟩

/-- The switches that every command knows. -/
def commonSwitches : List HelpEntry :=
  [⟨"-v, --verbose", "Enable debug logging (overridden by RUST_LOG)"⟩,
    ⟨"    --config <CONFIG>", "Generator config file (morph.toml)"⟩,
    ⟨"-h, --help", "Print help"⟩]

def versionSwitch : HelpEntry := ⟨"-V, --version", "Print version"⟩

def helpText : HelpTopic → String
  | .program =>
    helpHead "Runtime class synthesis toolchain" "[OPTIONS] <COMMAND>"
      ++ helpSection "Commands" (CommandName.all.map (fun c => ⟨c.word, c.purpose⟩) ++ [helpCommand])
      ++ helpSection "Options" (commonSwitches ++ [versionSwitch])
  | .command c =>
    helpHead c.purpose (c.word ++ " [OPTIONS] " ++ c.operand.form)
      ++ helpSection "Arguments" [c.operand] ++ helpSection "Options" (c.switches ++ commonSwitches)
  | .help =>
    helpHead helpCommand.purpose "help [COMMAND]..."
      ++ helpSection "Arguments" [⟨"[COMMAND]...", "Print help for the subcommand(s)"⟩]

def versionText : String := "morph 0.2.0\n"

end Classwright.Cli

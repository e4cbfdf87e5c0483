import Classwright.Cli.Run

/-!
# The program

Runs a command line on the files of the machine. Programs outside this one are not started.
-/

namespace Classwright

def FileFault.ofError : IO.Error → FileFault
  | .noFileOrDirectory _ _ _ => .notFound
  | e => .other (toString e)

/-- The result of an action on files, or what was refused. -/
def refusable {α : Type} (action : IO α) : IO (Except FileFault α) := do
  try
    return .ok (← action)
  catch e => return .error (.ofError e)

instance : FileSystem IO where
  readText p := refusable (IO.FS.readFile ⟨p.text⟩)
  list p := refusable do
    let directory ← IO.FS.realPath ⟨p.text⟩
    return (← directory.readDir).toList.map (·.fileName)
  createDirectories p := refusable (IO.FS.createDirAll ⟨p.text⟩)
  writeText p content := refusable (IO.FS.writeFile ⟨p.text⟩ content)

end Classwright

open Classwright in
def main (args : List String) : IO UInt32 := do
  let result ← Cli.run (fun _ => none) args
  IO.print result.output
  IO.eprint result.errors
  return result.status.toUInt32

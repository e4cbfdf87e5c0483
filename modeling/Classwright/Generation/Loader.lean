import Classwright.Code.Codec
import Classwright.Generation.Compiler
import Classwright.Machine.Invoke

/-!
# Loading compiled classes

A stored class is read, checked to be the one that was asked for, and linked.
-/

namespace Classwright

structure LoadRequest where
  files : FileTree
  directory : Path
  className : String
  registry : Nat

/-- A loader may answer differently each time; it is told how often it was asked before. -/
abbrev Loader := Nat → LoadRequest → Run LoadedClass

/-- The code in a stored class, if it is that of the class of this name. -/
def readUnit (files : FileTree) (directory : Path) (className : String) :
    Except LoadFault Code.Class :=
  match files.readText (unitPath directory className) with
  | .error _ => .error .unreadable
  | .ok text =>
    match Code.Class.ofText? text with
    | none => .error .malformed
    | some code =>
      if code.version ≠ Code.formatVersion then .error (.format code.version)
      else if code.name ≠ className then .error (.declares code.name)
      else .ok code

/-- Links stored classes, whose calls may nest up to a depth. -/
def unitLoader (maxCallDepth : Nat) : Loader := fun _ request =>
  match readUnit request.files request.directory request.className with
  | .error f => Run.fail (.load request.className f)
  | .ok code => link code request.registry maxCallDepth

end Classwright

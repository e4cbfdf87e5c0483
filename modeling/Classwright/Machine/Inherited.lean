import Classwright.Machine.Access
import Classwright.Machine.Builtin

/-!
# Host code and inherited methods

`Foreign.run` carries out host code, given how methods are invoked and objects are made.
`invokeInherited` looks for a method above an object's class: natives of host types nearest first,
then the builtin methods.
-/

namespace Classwright

/-- How a method of a value is invoked. -/
abbrev Invoke := Value → String → List Value → Run Value

/-- What running code relies on: how methods are invoked, how objects are made, and how many rounds
a loop may run. -/
structure Calls where
  invoke : Invoke
  instantiate : LoadedClass → Run Object
  rounds : Nat

/-- Carries out what host code asks for. -/
def HostRequest.run (calls : Calls) : HostRequest → Run Value
  | invoke o method args => calls.invoke (.object o) method args
  | instantiate c => return .object (← calls.instantiate c)
  | getField c field accessible o => do
    let h ← Run.ofExcept (c.declaredField field)
    (h.setAccessible accessible).get o
  | setField c field accessible o v => do
    let h ← Run.ofExcept (c.declaredField field)
    (h.setAccessible accessible).set o v
    return .null

def Foreign.run (calls : Calls) : Foreign → Run Value
  | answer v => pure v
  | fail f => Run.fail f
  | ask request next => do
    let r ← (request.run calls).outcome
    (next r).run calls
  | update cell change next => fun s =>
    let old := s.cells cell
    (next old).run calls { s with cells := fun c => if c = cell then change old else s.cells c }

/-- A call of a handler. -/
def invokeHandler (calls : Calls) (id : Nat) (interface : Descriptor) (m : Method)
    (args : List Value) : Run Value := do
  modify fun s => { s with calls := ⟨id, interface, m, args⟩ :: s.calls }
  match (← get).handlers[id]? with
  | some code => (code interface m args).run calls
  | none => return .null

/-- The arguments as the host type declares them; the first declaration that they fit counts. A
method that is not declared takes them as they are. -/
def nativeArguments (tables : Tables) (host : Descriptor) (method : String) (args : List Value) :
    Except Failure (List Value) :=
  match host.findMethods method args.length with
  | [] => .ok args
  | first :: others =>
    match (first :: others).findSome? fun m => Value.coerceAll tables m.params args with
    | some args => .ok args
    | none => .error (.illegalArgument (.unmatched host.name first.signature))

/-- The nearest host type above a class that has native code for the method. -/
def Store.inheritedNative? (s : Store) (c : LoadedClass) (method : String) (arity : Nat) :
    Option (Descriptor × NativeCode) :=
  (c.supertypes s.tables).findSome? fun host =>
    ((s.registry c.registry).native? host.name method arity).map (host, ·)

/-- Whether a type above the class declares the method without implementing it. -/
def Store.inheritsAbstract (s : Store) (c : LoadedClass) (method : String) (arity : Nat) : Bool :=
  (c.supertypes s.tables).any fun host => (host.findMethods method arity).any (·.isAbstract)

/-- Invokes a method that the object's class does not declare itself. -/
def invokeInherited (calls : Calls) (o : Object) (method : String) (args : List Value) :
    Run Value := do
  let s ← get
  match s.inheritedNative? o.cls method args.length with
  | some (host, code) => do
    let args ← Run.ofExcept (nativeArguments s.tables host method args)
    (code o args).run calls
  | none =>
    match Builtin.ofObject o method args with
    | some v => return v
    | none =>
      Run.fail (if s.inheritsAbstract o.cls method args.length
        then .abstractMethod o.cls.code.name method args.length
        else .noSuchMethod o.cls.code.name method args.length)

/-- The text of a value where it is joined to another; objects tell their own. -/
def textOf (call : Invoke) : Value → Run String
  | .object o => do
    match ← call (.object o) "toString" [] with
    | .str s => return s
    | v => return v.text
  | v => return v.text

end Classwright

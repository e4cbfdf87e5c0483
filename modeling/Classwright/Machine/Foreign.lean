import Classwright.Machine.Failure

/-!
# Host code

Natives and handlers are written by the host. All that the machine sees of them is what they do
next: answer, ask for something and go on with the outcome, or use a memory cell.
-/

namespace Classwright

/-- What host code may ask the machine for while it runs. -/
inductive HostRequest
  | invoke (receiver : Object) (method : String) (args : List Value)
  | instantiate (cls : LoadedClass)
  /-- Reads a field through a handle that is made accessible or not. -/
  | getField (cls : LoadedClass) (field : String) (accessible : Bool) (o : Object)
  /-- Writes a field through a handle that is made accessible or not. -/
  | setField (cls : LoadedClass) (field : String) (accessible : Bool) (o : Object) (value : Value)

inductive Foreign
  | answer (value : Value)
  | fail (failure : Failure)
  | ask (request : HostRequest) (next : Except Failure Value → Foreign)
  /-- Changes a cell and goes on with what it held before. -/
  | update (cell : Nat) (change : Nat → Nat) (next : Nat → Foreign)

/-- A native gets the receiver and the arguments. -/
abbrev NativeCode := Object → List Value → Foreign

/-- A handler gets the interface, the method and the arguments of a call. -/
abbrev HandlerCode := Descriptor → Method → List Value → Foreign

/-- The native implementation of the methods of one name and arity of a host type. -/
structure Native where
  method : String
  arity : Nat
  code : NativeCode

end Classwright

import Classwright.Machine.Eval

/-!
# Invocation, loading and instantiation

A method of an object is looked for in its class first, among the methods of its name and arity that
accept the arguments, then above the class. Every level of calls gets fewer rounds than the one
above it; `invoke` gives more of them than any run uses.
-/

namespace Classwright

/-- The first method of the class that accepts the arguments, with the arguments as it takes them;
none if the class has no method of this name and arity. -/
def LoadedClass.findMethod (tables : Tables) (c : LoadedClass) (name : String)
    (args : List Value) : Except Failure (Option (Code.Method × List Value)) :=
  match c.code.methods.filter fun m => m.name == name && m.params.length == args.length with
  | [] => .ok none
  | first :: others =>
    match (first :: others).findSome? fun m =>
      (Value.coerceAll tables m.params args).map (m, ·) with
    | some found => .ok (some found)
    | none => .error (.illegalArgument
        (.notApplicable c.code.name first.signature (args.map (·.kindName))))

/-- Runs a method of the object's class. -/
def callMethod (calls : Calls) (o : Object) (m : Code.Method) (args : List Value) : Run Value :=
  Run.nested o.cls.maxCallDepth do
    match ← runBody calls ⟨some o, o.cls⟩ m.locals args m.body with
    | .returned v => if m.returnType.isVoid then return .null else Run.coerce m.returnType v
    | .normal => return .null

def invokeObject (calls : Calls) (o : Object) (method : String) (args : List Value) :
    Run Value := do
  match ← Run.ofExcept (o.cls.findMethod (← Run.tables) method args) with
  | some (m, args) => callMethod calls o m args
  | none => invokeInherited calls o method args

/-- Invokes a method of any value. -/
def invokeValue (calls : Calls) (receiver : Value) (method : String) (args : List Value) :
    Run Value :=
  match receiver with
  | .null => Run.fail (.nullReference method)
  | .object o => invokeObject calls o method args
  | receiver =>
    match receiver, method, args with
    | .handler id, "call", .type interface :: .method m :: args =>
      invokeHandler calls id interface m args
    | .handler _, "call", _ => Run.fail (.illegalArgument .handlerCall)
    | _, _, _ =>
      match Builtin.ofValue receiver method args with
      | some result => Run.ofExcept result
      | none => Run.fail (.noSuchMethod receiver.kindName method args.length)

/-- Gives the fields of an object from `slot` on their initial values. -/
def initFields (calls : Calls) (o : Object) (slot : Nat) : List Code.Field → Run Unit
  | [] => pure ()
  | f :: fs => do
    match f.init with
    | none => pure ()
    | some init =>
      let v ← evalInitializer calls ⟨some o, o.cls⟩ f.type init
      Run.writeField o slot v
    initFields calls o (slot + 1) fs

/-- A new object whose fields hold the standard values of their types. -/
def allocate (c : LoadedClass) : Run Object := do
  let s ← get
  let values := c.code.fields.map fun (f : Code.Field) => Value.default f.type
  set { s with objects := s.objects.push ⟨c.id, values⟩ }
  return ⟨s.objects.size + 1, c⟩

def construct (calls : Calls) (c : LoadedClass) : Run Object := do
  match c.code.constructors.find? (·.params.isEmpty) with
  | none => Run.fail (.noSuchMethod c.code.name Failure.constructorName 0)
  | some k =>
    if k.visibility = .hidden then
      Run.fail (.illegalAccess c.code.name Failure.constructorName)
    else
      let o ← allocate c
      initFields calls o 0 c.code.fields
      let _ ← Run.nested c.maxCallDepth (runBody calls ⟨some o, c⟩ k.locals [] k.body)
      return o

/-- A new object: its fields are initialized and the constructor without parameters runs. -/
def instantiateWith (calls : Calls) (c : LoadedClass) : Run Object :=
  (construct calls c).mapFailure (.construction c.code.name)

/-- Calls with a number of rounds for each and all that it calls. -/
def Calls.within : Nat → Calls
  | 0 => ⟨fun _ _ _ => Run.exhausted, fun _ => Run.exhausted, 0⟩
  -- With their arguments, so that fewer rounds are looked at only when a call is made.
  | rounds + 1 => {
      invoke receiver method args := invokeValue (within rounds) receiver method args
      instantiate c := instantiateWith (within rounds) c
      rounds := rounds + 1 }

/-- Invokes a method with a number of rounds for it and all that it calls. -/
def invokeWithin (rounds : Nat) : Invoke := (Calls.within rounds).invoke

/-- More rounds than any run uses. -/
def unlimited : Nat := Nat.pow 2 62

def invoke : Invoke := invokeValue (.within unlimited)

def Object.invoke (o : Object) (method : String) (args : List Value) : Run Value :=
  Classwright.invoke (.object o) method args

def LoadedClass.instantiate (c : LoadedClass) : Run Object :=
  instantiateWith (.within unlimited) c

/-- Gives the static fields from `slot` on their initial values. -/
def initStatics (calls : Calls) (c : LoadedClass) (slot : Nat) : List Code.Field → Run Unit
  | [] => pure ()
  | f :: fs => do
    match f.init with
    | none => pure ()
    | some init =>
      let v ← (evalInitializer calls ⟨none, c⟩ f.type init).mapFailure
        (.staticInitializer c.code.name f.name)
      Run.writeStatic c slot v
    initStatics calls c (slot + 1) fs

/-- Links compiled code against a registry: its supertypes must be known, and its static fields get
their values. -/
def linkWith (calls : Calls) (code : Code.Class) (registry maxCallDepth : Nat) :
    Run LoadedClass := do
  let s ← get
  match (code.superclass :: code.interfaces).find? fun t => !(s.tables registry).resolves t with
  | some supertype => Run.fail (.load code.name (.unresolved supertype))
  | none => do
    let c : LoadedClass := ⟨s.statics.size, code, registry, maxCallDepth⟩
    set { s with statics := s.statics.push (code.statics.map fun (f : Code.Field) => Value.default f.type) }
    initStatics calls c 0 code.statics
    return c

def link (code : Code.Class) (registry maxCallDepth : Nat) : Run LoadedClass :=
  linkWith (.within unlimited) code registry maxCallDepth

end Classwright

import Classwright.Machine.Conversion
import Classwright.Machine.Foreign
import Classwright.Type.Catalog

/-!
# The store

Everything that runs may change: the registries of host types, the fields of objects and classes,
the depth of the calls in progress, and what handlers were asked. A run ends with a value or stops;
what it changed in the store stays either way.
-/

namespace Classwright

/-- The native implementations of a host type's methods. -/
structure HostNatives where
  type : String
  natives : List Native

/-- A registry of host types. -/
structure Registry where
  table : TypeTable := {}
  hosts : List HostNatives := []

namespace Registry

/-- The native code of a method of a host type. -/
def native? (r : Registry) (type method : String) (arity : Nat) : Option NativeCode :=
  (r.hosts.find? (·.type == type)).bind fun h =>
    (h.natives.find? fun n => n.method == method && n.arity == arity).map (·.code)

/-- Registers a host type with its natives in place of the one of its name. -/
def define (r : Registry) (d : Descriptor) (natives : List Native) : Registry :=
  ⟨r.table.define d, ⟨d.name, natives⟩ :: r.hosts.filter (·.type != d.name)⟩

/-- Registers a host type without natives unless its name is registered. -/
def defineIfAbsent (r : Registry) (d : Descriptor) : Registry :=
  { r with table := r.table.defineIfAbsent d }

/-- Registers the types of all directories, without natives, unless their names are registered;
counts those that are new. What was registered before a file is refused stays. -/
def readDirectories {m : Type → Type} [Monad m] [FileSystem m] (r : Registry)
    (directories : List Path) : m (Except CatalogFault Nat × Registry) := do
  let (count, table) ← (Catalog.readDirectories directories).run.run r.table
  return (count, { r with table := table })

end Registry

/-- A call that reached a handler. -/
structure HandlerCall where
  handler : Nat
  interface : Descriptor
  method : Method
  args : List Value

/-- An object as it is stored: the number of its class, and the values of its fields. -/
structure Instance where
  cls : Nat
  fields : List Value

/-- Objects, classes and handlers are numbered by their places; objects count from one. -/
structure Store where
  registries : Array Registry := #[]
  objects : Array Instance := #[]
  statics : Array (List Value) := #[]
  handlers : Array HandlerCode := #[]
  cells : Nat → Nat := fun _ => 0
  /-- The calls that reached handlers, the latest first. -/
  calls : List HandlerCall := []
  depth : Nat := 0

/-- Why a run has no value: it failed, or it used up the rounds it was given. -/
inductive Stop
  | failed (failure : Failure)
  | exhausted

abbrev Run := ExceptT Stop (StateM Store)

namespace Store

def registry (s : Store) (id : Nat) : Registry := s.registries[id]?.getD {}

def tables (s : Store) : Tables := fun id => (s.registry id).table

def addRegistry (s : Store) (r : Registry) : Nat × Store :=
  (s.registries.size, { s with registries := s.registries.push r })

def updateRegistry (s : Store) (id : Nat) (change : Registry → Registry) : Store :=
  { s with registries := s.registries.modify id change }

def addHandler (s : Store) (code : HandlerCode) : Nat × Store :=
  (s.handlers.size, { s with handlers := s.handlers.push code })

/-- The calls that a handler has received, in order. -/
def callsOf (s : Store) (handler : Nat) : List HandlerCall :=
  (s.calls.filter (·.handler == handler)).reverse

/-- The values of an object's fields. Nothing is stored for what is not of the object's class. -/
def fields (s : Store) (o : Object) : List Value :=
  match s.objects[o.id - 1]? with
  | some stored => if stored.cls = o.cls.id then stored.fields else []
  | none => []

def setFields (s : Store) (o : Object) (values : List Value) : Store :=
  { s with objects := s.objects.modify (o.id - 1) fun stored =>
      if stored.cls = o.cls.id then { stored with fields := values } else stored }

section

variable {s : Store} {o : Object} {values : List Value}

theorem fields_stored (stored : s.objects[o.id - 1]? = some ⟨o.cls.id, values⟩) :
    s.fields o = values := by
  simp [fields, stored]

theorem setFields_own {old : List Value} (stored : s.objects[o.id - 1]? = some ⟨o.cls.id, old⟩)
    (values : List Value) :
    (s.setFields o values).objects[o.id - 1]? = some ⟨o.cls.id, values⟩ := by
  simp [setFields, Array.getElem?_modify, stored]

theorem setFields_other {n : Nat} (other : n ≠ o.id - 1) :
    (s.setFields o values).objects[n]? = s.objects[n]? := by
  simp [setFields, Array.getElem?_modify, Ne.symm other]

end

def staticsOf (s : Store) (c : LoadedClass) : List Value := s.statics[c.id]?.getD []

def setStatics (s : Store) (c : LoadedClass) (values : List Value) : Store :=
  { s with statics := s.statics.setIfInBounds c.id values }

/-- The value of a class's static field, by name. -/
def static? (s : Store) (c : LoadedClass) (name : String) : Option Value :=
  (c.code.statics.findIdx? (·.name == name)).bind fun slot => (s.staticsOf c)[slot]?

end Store

namespace Run

variable {α : Type}

def fail (f : Failure) : Run α := throw (.failed f)

def exhausted : Run α := throw .exhausted

def ofExcept : Except Failure α → Run α
  | .ok a => pure a
  | .error f => fail f

def tables : Run Tables := return (← get).tables

/-- Ends a failed run with another failure. -/
def mapFailure (change : Failure → Failure) (body : Run α) : Run α :=
  ExceptT.adapt (fun
    | .failed f => .failed (change f)
    | .exhausted => .exhausted) body

/-- The outcome of a run that may fail. -/
def outcome (body : Run α) : Run (Except Failure α) := fun s =>
  match body s with
  | (.ok a, s) => (.ok (.ok a), s)
  | (.error (.failed f), s) => (.ok (.error f), s)
  | (.error .exhausted, s) => (.error .exhausted, s)

/-- Runs a body one call deeper, unless that many calls are in progress. -/
def nested (limit : Nat) (body : Run α) : Run α := fun s =>
  if limit ≤ s.depth then fail (.stackOverflow limit) s
  else
    let (result, s) := body { s with depth := s.depth + 1 }
    (result, { s with depth := s.depth - 1 })

def coerce (target : TypeRef) (v : Value) : Run Value := do
  match v.coerceTo (← tables) target with
  | some v => return v
  | none => fail (.invalidResult target.canonicalName v.kindName)

def readField (o : Object) (slot : Nat) : Run Value := do
  match ((← get).fields o)[slot]? with
  | some v => return v
  | none => fail (.illegalArgument (.missingSlot o.cls.code.name .field slot))

def writeField (o : Object) (slot : Nat) (v : Value) : Run Unit := do
  let values := (← get).fields o
  if slot < values.length then modify (·.setFields o (values.set slot v))
  else fail (.illegalArgument (.missingSlot o.cls.code.name .field slot))

def readStatic (c : LoadedClass) (slot : Nat) : Run Value := do
  match ((← get).staticsOf c)[slot]? with
  | some v => return v
  | none => fail (.illegalArgument (.missingSlot c.code.name .static slot))

def writeStatic (c : LoadedClass) (slot : Nat) (v : Value) : Run Unit := do
  let values := (← get).staticsOf c
  if slot < values.length then modify (·.setStatics c (values.set slot v))
  else fail (.illegalArgument (.missingSlot c.code.name .static slot))

end Run

end Classwright

import Classwright.Machine.Store

/-!
# Access to fields from outside

A handle to a declared field reads and writes it in the objects of its class. Fields that are not
public need access to be granted on the handle; so do public final fields for writing. A grant keeps
what was in force before it, which releasing it puts back.
-/

namespace Classwright

structure FieldHandle where
  cls : LoadedClass
  slot : Nat
  info : Code.Field
  accessible : Bool := false

/-- What a grant restores. -/
structure AccessGrant where
  previous : Bool

/-- The handle of a class's field. -/
def LoadedClass.declaredField (c : LoadedClass) (name : String) : Except Failure FieldHandle :=
  match c.code.fields.findIdx? (·.name == name) with
  | none => .error (.noSuchField c.code.name name)
  | some slot =>
    match c.code.fields[slot]? with
    | none => .error (.noSuchField c.code.name name)
    | some info => .ok { cls := c, slot := slot, info := info }

namespace FieldHandle

def setAccessible (h : FieldHandle) (accessible : Bool) : FieldHandle :=
  { h with accessible := accessible }

def grant (h : FieldHandle) : AccessGrant × FieldHandle := (⟨h.accessible⟩, h.setAccessible true)

def release (h : FieldHandle) (g : AccessGrant) : FieldHandle := h.setAccessible g.previous

/-- Whether the field may be used without a grant. -/
def isOpen (h : FieldHandle) (writing : Bool) : Bool :=
  h.info.visibility == .visible && !(writing && h.info.isFinal)

def check (h : FieldHandle) (o : Object) (writing : Bool) : Run Unit :=
  if o.cls.id != h.cls.id then
    Run.fail (.illegalArgument (.foreignObject o.cls.code.name h.cls.code.name))
  else if h.isOpen writing || h.accessible then pure ()
  else Run.fail (.illegalAccess h.cls.code.name h.info.name)

def get (h : FieldHandle) (o : Object) : Run Value := do
  h.check o false
  Run.readField o h.slot

/-- Writes the value as one of the field's type. -/
def set (h : FieldHandle) (o : Object) (v : Value) : Run Unit := do
  h.check o true
  match v.coerceTo (← Run.tables) h.info.type with
  | some v => Run.writeField o h.slot v
  | none => Run.fail (.illegalArgument
      (.unsettable h.info.type h.cls.code.name h.info.name v.kindName))

end FieldHandle

end Classwright

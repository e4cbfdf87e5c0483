import Classwright.Generation.Generator
import Classwright.Machine.Access
import Classwright.Synthesis.Delegation

/-!
# Proxies

A proxy implements an interface by passing every call to a handler. Its class is generated once for
the interface; each proxy is an instance whose private fields are filled from outside.
-/

namespace Classwright

/-- Writes a field of a new object, with access granted for the while. -/
def patchField (o : Object) (name : String) (v : Value) : Run Unit :=
  match o.cls.declaredField name with
  | .error _ => Run.fail (.unpatchable o.cls.code.name name)
  | .ok handle =>
    let (_, granted) := handle.grant
    (granted.set o v).mapFailure (.patch o.cls.code.name name)

/-- The fields of a proxy and what they hold. -/
def proxyFields (interface : Descriptor) (handler : Nat) : List (String × Value) :=
  [(Delegation.handlerField, .handler handler), (Delegation.interfaceField, .type interface)]
    ++ (Delegation.methodFields interface).map fun (field, m) => (field, .method m)

def patchAll (o : Object) : List (String × Value) → Run Unit
  | [] => pure ()
  | (name, v) :: fields => do
    patchField o name v
    patchAll o fields

/-- A new object whose methods call the handler. -/
def augment (interface : Descriptor) (handler : Nat) : Generation Object := do
  if !interface.isInterface then
    Generation.fail (.notProxied interface.name interface.kind)
  let o ← newInstance interface
  Generation.onStore (patchAll o (proxyFields interface handler))
  return o

end Classwright

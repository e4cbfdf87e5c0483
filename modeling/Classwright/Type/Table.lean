import Classwright.Type.Descriptor

/-!
# Tables of declared types

The descriptors that code is compiled and linked against, one for a name, and the walks along
their superclasses and interfaces. Hierarchies may be cyclic or name types that are not declared;
the walks pass over such names and stop at a type they have met before.
-/

namespace Classwright

structure TypeTable where
  types : List Descriptor := []

namespace TypeTable

def lookup (t : TypeTable) (name : String) : Option Descriptor := t.types.find? (·.name == name)

def contains (t : TypeTable) (name : String) : Bool := (t.lookup name).isSome

/-- Whether the name is declared or builtin. -/
def resolves (t : TypeTable) (name : String) : Bool := Builtin.all.contains name || t.contains name

def size (t : TypeTable) : Nat := t.types.length

/-- Declares a type in place of the one of its name. -/
def define (t : TypeTable) (d : Descriptor) : TypeTable :=
  if t.contains d.name then ⟨t.types.map fun old => if old.name == d.name then d else old⟩
  else ⟨t.types ++ [d]⟩

/-- Declares a type unless its name is declared. -/
def defineIfAbsent (t : TypeTable) (d : Descriptor) : TypeTable :=
  if t.contains d.name then t else ⟨t.types ++ [d]⟩

/-- The weights of the types that pass a test, added up. -/
def weigh (w : Descriptor → Nat) (p : Descriptor → Bool) : List Descriptor → Nat
  | [] => 0
  | d :: ds => (if p d then w d else 0) + weigh w p ds

theorem weigh_le {p q : Descriptor → Bool} (hpq : ∀ d, p d = true → q d = true)
    (w : Descriptor → Nat) (ds : List Descriptor) : weigh w p ds ≤ weigh w q ds := by
  induction ds with
  | nil => exact Nat.le_refl 0
  | cons d ds ih => grind [weigh]

/-- A type that only the weaker test passes makes up for its weight. -/
theorem weigh_add_le {p q : Descriptor → Bool} (hpq : ∀ d, p d = true → q d = true)
    (w : Descriptor → Nat) {ds : List Descriptor} {d : Descriptor} (hd : d ∈ ds)
    (out : p d = false) (in_ : q d = true) : weigh w p ds + w d ≤ weigh w q ds := by
  induction ds with
  | nil => exact absurd hd List.not_mem_nil
  | cons e ds ih =>
    rcases List.mem_cons.1 hd with rfl | hd
    · have := weigh_le hpq w ds
      grind [weigh]
    · have := ih hd
      have := hpq e
      grind [weigh]

/-- How much a walk along `next` may still queue when it has met the names `visited`. -/
def unmet (t : TypeTable) (next : Descriptor → List String) (visited : List String) : Nat :=
  weigh (fun d => (next d).length + 1) (fun d => !visited.contains d.name) t.types

theorem unmet_cons {t : TypeTable} {name : String} {d : Descriptor} {visited : List String}
    (next : Descriptor → List String) (found : t.lookup name = some d)
    (new : visited.contains name = false) :
    t.unmet next (name :: visited) + ((next d).length + 1) ≤ t.unmet next visited := by
  have hname : d.name = name := by simpa using List.find?_some found
  refine weigh_add_le ?_ (fun d => (next d).length + 1) (List.mem_of_find?_eq_some found) ?_ ?_
  · intro e he
    grind
  · grind
  · grind

theorem unmet_le (t : TypeTable) (next : Descriptor → List String) (name : String)
    (visited : List String) : t.unmet next (name :: visited) ≤ t.unmet next visited := by
  refine weigh_le ?_ (fun d => (next d).length + 1) t.types
  intro d hd
  grind

/-- The declared types that can be reached from the queued names along `next`, nearest first, when
the names `visited` have been met. -/
def walk (t : TypeTable) (next : Descriptor → List String) (visited : List String) :
    List String → List Descriptor
  | [] => []
  | name :: queue =>
    if hv : visited.contains name then t.walk next visited queue
    else
      match h : t.lookup name with
      | none => t.walk next visited queue
      | some d =>
        have := unmet_cons next h (Bool.eq_false_iff.2 hv)
        d :: t.walk next (name :: visited) (queue ++ next d)
termination_by queue => t.unmet next visited + queue.length
decreasing_by
  · simp
  · simp
  · simp; omega

/-- The interfaces that can be reached from the names, nearest first. -/
def interfaceClosure (t : TypeTable) (names : List String) : List Descriptor :=
  t.walk (·.interfaces) [] names

/-- Whether a search along parents, depth first, comes to `sup` from one of the stacked names when
the names `visited` have been met. What is met below one name is not searched again below the next.
-/
def comesTo (t : TypeTable) (sup : String) (visited : List String) : List String → Bool
  | [] => false
  | name :: stack =>
    if name == sup || sup == Builtin.object then true
    else if hv : visited.contains name then t.comesTo sup visited stack
    else
      match h : t.lookup name with
      | none => t.comesTo sup (name :: visited) stack
      | some d =>
        have := unmet_cons Descriptor.parents h (Bool.eq_false_iff.2 hv)
        t.comesTo sup (name :: visited) (d.parents ++ stack)
termination_by stack => t.unmet Descriptor.parents visited + stack.length
decreasing_by
  · simp
  · have := t.unmet_le Descriptor.parents name visited
    simp
    omega
  · simp
    omega

/-- Whether `sub` is `sup` or stands below it; everything stands below `Object`. -/
def isSubtype (t : TypeTable) (sub sup : String) : Bool := t.comesTo sup [] [sub]

/-- The types above a superclass link, nearest first, when the names `visited` have been met. -/
def chain (t : TypeTable) (visited : List String) : Option String → List Descriptor
  | none => []
  | some name =>
    if hv : visited.contains name then []
    else
      match h : t.lookup name with
      | none => []
      | some d =>
        have := unmet_cons (fun _ => []) h (Bool.eq_false_iff.2 hv)
        d :: t.chain (name :: visited) d.superclass
termination_by t.unmet (fun _ => []) visited
decreasing_by simp at this; omega

/-- The superclasses of a type, nearest first. -/
def superclasses (t : TypeTable) (name : String) : List Descriptor :=
  t.chain [] ((t.lookup name).bind (·.superclass))

/-- A type that a class extends and all above it: the superclasses nearest first, then every
interface that the class or one of them names. -/
def lineage (t : TypeTable) (superclass : String) (interfaces : List String) : List Descriptor :=
  let chain := (t.lookup superclass).toList ++ t.superclasses superclass
  chain ++ t.interfaceClosure (interfaces ++ chain.flatMap (·.interfaces))

end TypeTable

end Classwright

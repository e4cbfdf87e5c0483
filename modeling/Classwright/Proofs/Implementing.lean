import Classwright.Proofs.Contents
import Classwright.Proofs.Resolution

/-!
# Abstract methods have code

The checker wants code for every abstract method that a class inherits and compares parameter types
for it; a run looks for code by name and number of arguments. Where every host type has native code
for the methods that it does not declare abstract, a class that has been compiled never leaves a
call to a method without code.
-/

namespace Classwright

open Check

/-- What becomes of a call. -/
inductive Dispatched
  | runs (target : Target)
  | answers (v : Value)
  | refused (f : Failure)

namespace Dispatched

def run (calls : Calls) (o : Object) : Dispatched → Run Value
  | runs target => target.run calls o
  | answers v => pure v
  | refused f => Run.fail f

/-- Whether the call ends at a method without code. -/
def isUnimplemented : Dispatched → Bool
  | refused (.abstractMethod _ _ _) => true
  | _ => false

end Dispatched

namespace Store

/-- What becomes of a call that passes over the methods of the class. -/
def dispatchAbove (s : Store) (o : Object) (name : String) (args : List Value) : Dispatched :=
  match s.inheritedNative? o.cls name args.length with
  | some (host, code) =>
    match nativeArguments s.tables host name args with
    | .ok taken => .runs (.native host code taken)
    | .error f => .refused f
  | none =>
    match Builtin.ofObject o name args with
    | some v => .answers v
    | none =>
      .refused (if s.inheritsAbstract o.cls name args.length
        then .abstractMethod o.cls.code.name name args.length
        else .noSuchMethod o.cls.code.name name args.length)

def dispatch (s : Store) (o : Object) (name : String) (args : List Value) : Dispatched :=
  match o.cls.findMethod s.tables name args with
  | .ok (some (m, taken)) => .runs (.own m taken)
  | .ok none => s.dispatchAbove o name args
  | .error f => .refused f

end Store

section Running

variable (calls : Calls) (o : Object) (name : String) (args : List Value) (s : Store)

theorem invokeInherited_eq :
    invokeInherited calls o name args s = (s.dispatchAbove o name args).run calls o s := by
  unfold invokeInherited
  change (match s.inheritedNative? o.cls name args.length with
    | some (host, code) => do
      let args ← Run.ofExcept (nativeArguments s.tables host name args)
      (code o args).run calls
    | none => _ : Run Value) s = _
  unfold Store.dispatchAbove
  cases s.inheritedNative? o.cls name args.length with
  | some found =>
    dsimp only
    cases nativeArguments s.tables found.1 name args with
    | ok taken => rfl
    | error f => rfl
  | none =>
    dsimp only
    cases Builtin.ofObject o name args with
    | some v => rfl
    | none => rfl

theorem invokeObject_eq :
    invokeObject calls o name args s = (s.dispatch o name args).run calls o s := by
  have started : ∀ next : Tables → Run Value, (Run.tables >>= next) s = next s.tables s :=
    fun _ => rfl
  rw [invokeObject, started, Store.dispatch]
  cases o.cls.findMethod s.tables name args with
  | error f => rfl
  | ok found =>
    rw [Run.ofExcept, pure_bind]
    cases found with
    | none => exact invokeInherited_eq calls o name args s
    | some own => rfl

end Running

theorem Builtin.ofObject_isSome (o : Object) {name : String} {args : List Value}
    (builtin : (BuiltinMethod.ofAny? name args.length).isSome = true) :
    (Builtin.ofObject o name args).isSome = true := by
  unfold BuiltinMethod.ofAny? at builtin
  split at builtin
  · rename_i arity
    rw [List.length_eq_zero_iff.1 arity]
    rfl
  · rename_i arity
    obtain ⟨other, rfl⟩ := List.length_eq_one_iff.1 arity
    rfl
  · rename_i arity
    rw [List.length_eq_zero_iff.1 arity]
    rfl
  · cases builtin

/-- A call that passes over the class ends at a method without code only where nothing answers and
a type above the class declares the method abstract. -/
theorem isUnimplemented_dispatchAbove {s : Store} {o : Object} {name : String} {args : List Value}
    (unimplemented : (s.dispatchAbove o name args).isUnimplemented = true) :
    s.inheritedNative? o.cls name args.length = none ∧ Builtin.ofObject o name args = none ∧
      s.inheritsAbstract o.cls name args.length = true := by
  unfold Store.dispatchAbove at unimplemented
  split at unimplemented
  · rename_i host code _
    have mismatch : ∀ f, nativeArguments s.tables host name args = .error f →
        (Dispatched.refused f).isUnimplemented = false := by
      intro f refused
      unfold nativeArguments at refused
      split at refused
      · cases refused
      · split at refused
        · cases refused
        · cases refused
          rfl
    split at unimplemented
    · cases unimplemented
    · rename_i f refused
      rw [mismatch f refused] at unimplemented
      cases unimplemented
  · rename_i noNative
    split at unimplemented
    · cases unimplemented
    · rename_i noBuiltin
      refine ⟨noNative, noBuiltin, ?_⟩
      split at unimplemented
      · assumption
      · cases unimplemented

theorem isUnimplemented_dispatch {s : Store} {o : Object} {name : String} {args : List Value}
    (unimplemented : (s.dispatch o name args).isUnimplemented = true) :
    (∀ k ∈ o.cls.code.methods, k.name = name → k.params.length ≠ args.length) ∧
      s.inheritedNative? o.cls name args.length = none ∧
      s.inheritsAbstract o.cls name args.length = true := by
  unfold Store.dispatch at unimplemented
  split at unimplemented
  · cases unimplemented
  · rename_i passedOn
    obtain ⟨noNative, _, isAbstract⟩ := isUnimplemented_dispatchAbove unimplemented
    exact ⟨LoadedClass.findMethod_eq_none_iff.1 passedOn, noNative, isAbstract⟩
  · rename_i f refused
    unfold LoadedClass.findMethod at refused
    split at refused
    · cases refused
    · split at refused
      · cases refused
      · cases refused
        cases unimplemented

/-- Every host type has native code for the methods that it does not declare abstract. -/
def Registry.Implemented (r : Registry) : Prop :=
  ∀ d, r.table.lookup d.name = some d → ∀ m ∈ d.methods, m.isAbstract = false →
    (r.native? d.name m.name m.arity).isSome = true

namespace Check

variable {cx : ClassContext}

theorem ClassContext.implements_of_missing {inherited methods : List OwnedMethod}
    (clean : cx.missing inherited [] methods = []) :
    ∀ m ∈ methods, m.method.isAbstract = true → cx.implements inherited m = true := by
  induction methods with
  | nil => exact fun m member => nomatch member
  | cons first methods ih =>
    intro m member isAbstract
    rw [missing] at clean
    split at clean
    · cases clean
    · rename_i notMissing
      rcases List.mem_cons.1 member with rfl | member
      · simpa [isAbstract] using notMissing
      · exact ih clean m member isAbstract

/-- No abstract method that a compiled class inherits is left without code. -/
theorem Accepted.implements {table : TypeTable} {unit : Source.CompilationUnit} {code : Code.Class}
    (accepted : Accepted table unit code) :
    ∀ m ∈ (contextOf table unit).inheritedMethods, m.method.isAbstract = true →
      (contextOf table unit).implements (contextOf table unit).inheritedMethods m = true := by
  have clean := (List.append_eq_nil_iff.1 accepted.inheritance_clean).2
  exact ClassContext.implements_of_missing (List.map_eq_nil_iff.1 clean)

theorem mem_ownedMethods {types : List Descriptor} {m : OwnedMethod} :
    m ∈ ownedMethods types ↔ ∃ d ∈ types, ∃ method ∈ d.methods, m = ⟨method, d.name, false⟩ := by
  simp only [ownedMethods, List.mem_flatMap, List.mem_map, eq_comm]

end Check

/-- An object of a class that was compiled from the unit against the registry that it is linked
against. -/
structure Compiles (r : Registry) (unit : Source.CompilationUnit) (s : Store) (o : Object) :
    Prop where
  accepted : Accepted r.table unit o.cls.code
  linked : s.registry o.cls.registry = r

namespace Compiles

variable {r : Registry} {unit : Source.CompilationUnit} {s : Store} {o : Object} {name : String}
  {args : List Value}

/-- What the checker takes for the methods above the class are those of its supertypes. -/
theorem inheritedMethods (h : Compiles r unit s o) :
    (contextOf r.table unit).inheritedMethods = ownedMethods (o.cls.supertypes s.tables) := by
  have table : s.tables o.cls.registry = r.table := congrArg Registry.table h.linked
  rw [ClassContext.inheritedMethods, h.accepted.describes.table, h.accepted.describes.superclass,
    h.accepted.describes.interfaces, LoadedClass.supertypes, table]

/-- Above the class there is native code for a method that a type there declares with code. -/
theorem inheritedNative?_isSome (h : Compiles r unit s o) (native : r.Implemented)
    {m : OwnedMethod} (inherited : m ∈ (contextOf r.table unit).inheritedMethods)
    (concrete : m.method.isAbstract = false) :
    (s.inheritedNative? o.cls m.name m.method.params.length).isSome = true := by
  rw [h.inheritedMethods] at inherited
  obtain ⟨d, above, method, declared, rfl⟩ := mem_ownedMethods.1 inherited
  have found : r.table.lookup d.name = some d := by
    have table : s.tables o.cls.registry = r.table := congrArg Registry.table h.linked
    rw [LoadedClass.supertypes, table] at above
    exact TypeTable.lookup_of_mem_lineage above
  rw [Store.inheritedNative?, List.findSome?_isSome_iff]
  refine ⟨d, above, ?_⟩
  rw [h.linked, Option.isSome_map]
  exact native d found method declared concrete

theorem dispatchAbove_of_answers (h : Compiles r unit s o) (native : r.Implemented)
    (answers : (contextOf r.table unit).Answers name args.length) :
    (s.dispatchAbove o name args).isUnimplemented = false := by
  refine Bool.eq_false_iff.2 fun unimplemented => ?_
  obtain ⟨noNative, noBuiltin, _⟩ := isUnimplemented_dispatchAbove unimplemented
  rcases answers with ⟨m, inherited, rfl, arity, concrete⟩ | builtin
  · have found := h.inheritedNative?_isSome native inherited concrete
    rw [arity, noNative] at found
    cases found
  · have answered := Builtin.ofObject_isSome o builtin
    rw [noBuiltin] at answered
    cases answered

/-- An abstract method above the class is one that the class declares itself, or a type above it
has code for it. -/
theorem dispatch_isUnimplemented (h : Compiles r unit s o) (native : r.Implemented) :
    (s.dispatch o name args).isUnimplemented = false := by
  refine Bool.eq_false_iff.2 fun unimplemented => ?_
  obtain ⟨notOwn, noNative, isAbstract⟩ := isUnimplemented_dispatch unimplemented
  simp only [Store.inheritsAbstract, Descriptor.findMethods, List.any_eq_true, List.mem_filter,
    Bool.and_eq_true, beq_iff_eq] at isAbstract
  obtain ⟨d, above, method, ⟨declared, rfl, arity⟩, isAbstract⟩ := isAbstract
  have inherited : ⟨method, d.name, false⟩ ∈ (contextOf r.table unit).inheritedMethods := by
    rw [h.inheritedMethods]
    exact mem_ownedMethods.2 ⟨d, above, method, declared, rfl⟩
  have implemented := h.accepted.implements _ inherited isAbstract
  simp only [ClassContext.implements, OwnedMethod.sameParameters, Bool.or_eq_true,
    List.any_eq_true, Bool.and_eq_true, Bool.not_eq_true', beq_iff_eq] at implemented
  rcases implemented with ⟨own, inOwn, same, params⟩ | ⟨m, inAbove, concrete, same, params⟩
  · obtain ⟨c, inCode, named, params', _⟩ := h.accepted.exists_code_of_mem_methods inOwn
    refine notOwn c inCode (named.trans same) ?_
    rw [params', params]
    exact arity
  · have found := h.inheritedNative?_isSome native inAbove concrete
    rw [OwnedMethod.name, same, params, ← Method.arity, arity, noNative] at found
    cases found

end Compiles

/-- A call on an object of a class that has been compiled against its registry runs a method of the
class or native code above it, is answered, or is refused for another reason than that it has come
to a method without code; so is every call on `super` that stands in the code of the class. -/
theorem dispatch_of_compileSource {r : Registry} {source : String} {code : Code.Class}
    (compiled : compileSource r.table source = .ok code) (native : r.Implemented) {s : Store}
    {o : Object} (ofCode : o.cls.code = code) (linked : s.registry o.cls.registry = r)
    (calls : Calls) :
    (∀ name args, invokeObject calls o name args s = (s.dispatch o name args).run calls o s ∧
      (s.dispatch o name args).isUnimplemented = false) ∧
    code.Only (fun _ => True) fun name arity => ∀ args, args.length = arity →
      invokeInherited calls o name args s
          = (s.dispatchAbove o name args).run calls o s ∧
        (s.dispatchAbove o name args).isUnimplemented = false := by
  subst ofCode
  obtain ⟨_, unit, _, _, unitCompiles⟩ := compileUnit_of_compileSource compiled
  have h : Compiles r unit s o := ⟨accepted_of_compileUnit unitCompiles, linked⟩
  constructor
  · intro name args
    exact ⟨invokeObject_eq calls o name args s, h.dispatch_isUnimplemented native⟩
  · refine Code.Class.Only.mono (fun _ => id) ?_ (h.accepted.only_answers)
    rintro name arity answers args rfl
    exact ⟨invokeInherited_eq calls o name args s, h.dispatchAbove_of_answers native answers⟩

/-! ### A class that leaves a method to a native above it -/

namespace Sample

/-- An interface, and an abstract class below it with native code for its method. -/
def shapes : Registry where
  table := ⟨[⟨"Named", .interface, none, [], [], [⟨"name", .string, [], [], .visible, true⟩]⟩,
    ⟨"Shape", .abstractClass, none, ["Named"], [],
      [⟨"name", .string, [], [], .visible, false⟩, ⟨"area", .int, [], [], .visible, true⟩]⟩]⟩
  hosts := [⟨"Shape", [⟨"name", 0, fun _ _ => .answer (.str "shape")⟩]⟩]

def square : String :=
  "class Square extends Shape \x7b public int area() \x7b return 4; \x7d "
    ++ "String text() \x7b return super.name() + super.toString(); \x7d \x7d"

def squareObject : Object := ⟨1, ⟨0, codeOf shapes.table square, 0, 64⟩⟩

theorem shapes_implemented : shapes.Implemented := by
  have everywhere : ∀ d ∈ shapes.table.types, ∀ m ∈ d.methods, m.isAbstract = false →
      (shapes.native? d.name m.name m.arity).isSome = true := by decide +kernel
  exact fun d found => everywhere d (TypeTable.mem_of_lookup found)

theorem square_compiles : (compileSource shapes.table square).toOption.isSome = true := by
  decide +kernel

theorem square_dispatched :
    compileSource shapes.table square = .ok squareObject.cls.code ∧
    let s : Store := { registries := #[shapes] }
    let calls := Calls.within unlimited
    (∀ name args, invokeObject calls squareObject name args s
        = (s.dispatch squareObject name args).run calls squareObject s ∧
      (s.dispatch squareObject name args).isUnimplemented = false) ∧
    squareObject.cls.code.Only (fun _ => True) fun name arity => ∀ args, args.length = arity →
      invokeInherited calls squareObject name args s
          = (s.dispatchAbove squareObject name args).run calls squareObject s ∧
        (s.dispatchAbove squareObject name args).isUnimplemented = false := by
  have compiled : compileSource shapes.table square = .ok squareObject.cls.code :=
    (compiles_of_isOk square_compiles).1
  exact ⟨compiled, dispatch_of_compileSource compiled shapes_implemented rfl rfl _⟩

end Sample

end Classwright

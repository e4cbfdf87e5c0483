import Classwright.Machine.Access
import Classwright.Machine.Invoke
import Classwright.Proofs.Assignability

/-!
# Worlds

A world says of a whole run which registries there are, which class each class number stands for,
which unit that class was compiled from, and which objects there are. With it one can say that a
value, a failure or host code speaks of existing objects only, and what the static type of an
expression promises about a value.
-/

namespace Classwright

open Check

/-- The classes and objects of a run, by number. -/
structure World where
  registries : Array Registry
  /-- The registry that all classes are compiled and linked against. -/
  path : Nat
  classes : Nat → Option LoadedClass
  /-- The unit that the class of this number was compiled from. -/
  units : Nat → Source.CompilationUnit
  HasObject : Object → Prop

namespace World

/-- A store of this world in which nothing has happened. -/
def store (W : World) : Store := { registries := W.registries }

def tables (W : World) : Tables := W.store.tables

def table (W : World) : TypeTable := W.tables W.path

/-- The context in which the class of this number was checked. -/
def context (W : World) (n : Nat) : ClassContext := contextOf W.table (W.units n)

mutual

/-- All objects in the value exist. -/
def Knows (W : World) : Value → Prop
  | .object o => W.HasObject o
  | .array items => W.KnowsAll items
  | _ => True

def KnowsAll (W : World) : List Value → Prop
  | [] => True
  | v :: vs => W.Knows v ∧ W.KnowsAll vs

end

theorem knowsAll_iff {W : World} {vs : List Value} : W.KnowsAll vs ↔ ∀ v ∈ vs, W.Knows v := by
  induction vs with
  | nil => simp [KnowsAll]
  | cons v vs ih => simp [KnowsAll, ih]

/-- All objects in what a failure carries exist. -/
def KnowsFailure (W : World) : Failure → Prop
  | .thrown v => W.Knows v
  | .staticInitializer _ _ cause | .construction _ cause | .patch _ _ cause => W.KnowsFailure cause
  | _ => True

def KnowsStop (W : World) : Stop → Prop
  | .failed f => W.KnowsFailure f
  | .exhausted => True

def KnowsOutcome (W : World) : Except Failure Value → Prop
  | .ok v => W.Knows v
  | .error f => W.KnowsFailure f

/-- All that the request speaks of exists. -/
def KnowsRequest (W : World) : HostRequest → Prop
  | .invoke o _ args => W.HasObject o ∧ W.KnowsAll args
  | .instantiate c => W.classes c.id = some c
  | .getField c _ _ o => W.classes c.id = some c ∧ W.HasObject o
  | .setField c _ _ o v => W.classes c.id = some c ∧ W.HasObject o ∧ W.Knows v

/-- Host code that speaks of existing objects and classes only, as long as it is told of existing
ones, asks for what `Asks` allows, and answers with values that `Answers` allows. -/
inductive Honest (W : World) (Asks : HostRequest → Prop) (Answers : Value → Prop) : Foreign → Prop
  | answer {v : Value} : W.Knows v → Answers v → Honest W Asks Answers (.answer v)
  | fail {f : Failure} : W.KnowsFailure f → Honest W Asks Answers (.fail f)
  | ask {request : HostRequest} {next : Except Failure Value → Foreign} :
      W.KnowsRequest request → Asks request →
      (∀ r, W.KnowsOutcome r → Honest W Asks Answers (next r)) →
      Honest W Asks Answers (.ask request next)
  | update {cell : Nat} {change : Nat → Nat} {next : Nat → Foreign} :
      (∀ n, Honest W Asks Answers (next n)) → Honest W Asks Answers (.update cell change next)

/-- A handler may answer anything that exists. -/
def HonestHandler (W : World) (Asks : HostRequest → Prop) (code : HandlerCode) : Prop :=
  ∀ interface m args, W.KnowsAll args → W.Honest Asks (fun _ => True) (code interface m args)

/-- Host code that may ask for anything. -/
def anything : HostRequest → Prop := fun _ => True

end World

/-- The method of a host type whose parameters native code gets its arguments for. -/
def Descriptor.taking (tables : Tables) (d : Descriptor) (name : String) (args : List Value) :
    Option Method :=
  (d.findMethods name args.length).find? fun m => (Value.coerceAll tables m.params args).isSome

/-- Native code that is found is one of the registered natives. -/
theorem Registry.native_of_native? {r : Registry} {type method : String} {arity : Nat}
    {code : NativeCode} (found : r.native? type method arity = some code) :
    ∃ host ∈ r.hosts, host.type = type ∧ ∃ n ∈ host.natives, n.method = method ∧ n.arity = arity ∧
      n.code = code := by
  unfold native? at found
  obtain ⟨host, named, found⟩ := Option.bind_eq_some_iff.1 found
  obtain ⟨n, chosen, rfl⟩ := Option.map_eq_some_iff.1 found
  have own := List.find?_some named
  have fits := List.find?_some chosen
  rw [beq_iff_eq] at own
  rw [Bool.and_eq_true, beq_iff_eq, beq_iff_eq] at fits
  exact ⟨host, List.mem_of_find?_eq_some named, own, n, List.mem_of_find?_eq_some chosen, fits.1,
    fits.2, rfl⟩

namespace World

/-- Native code is honest and, where it implements a declared method, answers as declared. -/
def HonestNatives (W : World) : Prop :=
  ∀ d ∈ W.table.types, ∀ method arity code,
    (W.store.registry W.path).native? d.name method arity = some code →
      ∀ o args taken, args.length = arity → W.HasObject o → W.KnowsAll taken →
        nativeArguments W.tables d method args = .ok taken →
        W.Honest anything (fun v => ∀ m, d.taking W.tables method args = some m →
          (StaticType.of m.returnType).Holds W.tables v) (code o taken)

/-- The unit of the class of this number is what a source text is parsed to that compiles to the
code. -/
def Compiles (W : World) (n : Nat) (code : Code.Class) : Prop :=
  ∃ source tokens, Source.scan source = .ok tokens ∧ Source.parse tokens = .ok (W.units n) ∧
    compileSource W.table source = .ok code

/-- A run's classes are compiled from their sources and linked against one registry that declares no
builtin name. Their names are their own. -/
structure Linked (W : World) : Prop where
  regular : W.table.Regular
  compiled : ∀ n c, W.classes n = some c →
    c.id = n ∧ c.registry = W.path ∧ W.Compiles n c.code
  resolved : ∀ n c, W.classes n = some c →
    ∀ parent ∈ c.code.superclass :: c.code.interfaces, W.table.resolves parent = true
  fresh : ∀ n c, W.classes n = some c →
    c.code.name ∉ Builtin.all ∧ W.table.lookup c.code.name = none
  distinct : ∀ m n c d, W.classes m = some c → W.classes n = some d →
    c.code.name = d.code.name → m = n
  instances : ∀ o, W.HasObject o → W.classes o.cls.id = some o.cls

/-- Moreover native code does as it is declared to do, and there may be any objects of the classes:
host code makes new ones in the middle of a run. -/
structure Valid (W : World) : Prop extends W.Linked where
  natives : W.HonestNatives
  objects : ∀ o, W.classes o.cls.id = some o.cls → W.HasObject o

variable {W : World}

theorem accepted (linked : W.Linked) {n : Nat} {c : LoadedClass} (h : W.classes n = some c) :
    Accepted W.table (W.units n) c.code := by
  obtain ⟨source, tokens, scanned, parsed, compiled⟩ := (linked.compiled n c h).2.2
  obtain ⟨tokens', unit, scanned', parsed', compiled'⟩ := compileUnit_of_compileSource compiled
  rw [scanned, Except.ok.injEq] at scanned'
  subst scanned'
  rw [parsed, Except.ok.injEq] at parsed'
  subst parsed'
  exact accepted_of_compileUnit compiled'

@[simp] theorem context_table (n : Nat) : (W.context n).table = W.table := contextOf_table ..

theorem describes (linked : W.Linked) {n : Nat} {c : LoadedClass} (h : W.classes n = some c) :
    (W.context n).Describes W.table c.code := (W.accepted linked h).describes

theorem context_name (linked : W.Linked) {n : Nat} {c : LoadedClass} (h : W.classes n = some c) :
    (W.context n).name = c.code.name := (describes linked h).name

theorem context_superclass (linked : W.Linked) {n : Nat} {c : LoadedClass}
    (h : W.classes n = some c) : (W.context n).superclass = c.code.superclass :=
  (describes linked h).superclass

theorem context_interfaces (linked : W.Linked) {n : Nat} {c : LoadedClass}
    (h : W.classes n = some c) : (W.context n).interfaces = c.code.interfaces :=
  (describes linked h).interfaces

/-- The classes of a world are linked together. -/
theorem Linked.together (linked : W.Linked) :
    LinkedTogether W.tables W.path fun c => ∃ n, W.classes n = some c where
  regular := linked.regular
  registry := fun c ⟨n, hc⟩ => (linked.compiled n c hc).2.1
  resolved := fun c ⟨n, hc⟩ => linked.resolved n c hc
  fresh := fun c ⟨n, hc⟩ => linked.fresh n c hc
  distinct := by
    rintro c d ⟨m, hc⟩ ⟨n, hd⟩ same
    obtain rfl := linked.distinct m n c d hc hd same
    exact Option.some.inj (hc.symm.trans hd)

mutual

/-- The objects of a known value are of the classes of the world. -/
theorem Knows.objects (linked : W.Linked) {v : Value} (known : W.Knows v) :
    ∀ o ∈ v.objects, ∃ n, W.classes n = some o.cls := by
  cases v with
  | object o =>
    intro p member
    rw [List.mem_singleton.1 member]
    exact ⟨_, linked.instances o known⟩
  | array items => exact KnowsAll.objects linked known
  | _ => exact fun _ member => nomatch member

theorem KnowsAll.objects (linked : W.Linked) {vs : List Value} (known : W.KnowsAll vs) :
    ∀ o ∈ Value.allObjects vs, ∃ n, W.classes n = some o.cls := by
  cases vs with
  | nil => exact fun _ member => nomatch member
  | cons v vs =>
    intro o member
    rcases List.mem_append.1 member with member | member
    · exact Knows.objects linked known.1 o member
    · exact KnowsAll.objects linked known.2 o member

end

/-- Among the classes of a world only one stands below the name of a generated class. -/
theorem eq_of_isSubtypeOf_name (linked : W.Linked) {m n : Nat} {c d : LoadedClass}
    (hc : W.classes m = some c) (hd : W.classes n = some d)
    (below : c.isSubtypeOf W.tables d.code.name = true) : c = d :=
  linked.together.eq_of_isSubtypeOf_name ⟨m, hc⟩ ⟨n, hd⟩ below

/-- Every known value of a reference type is one of each type that it may be assigned to. -/
theorem isInstanceOf_of_isAssignableRef (linked : W.Linked) {n : Nat} {d : LoadedClass}
    (hd : W.classes n = some d) {source target : TypeRef} {v : Value} (known : W.Knows v)
    (noprim : ∀ k, target ≠ .primitive k)
    (assignable : (W.context n).isAssignableRef source target = true)
    (h : v.isInstanceOf W.tables source = true) : v.isInstanceOf W.tables target = true :=
  linked.together.isInstanceOf_of_isAssignableRef ⟨n, hd⟩ (describes linked hd)
    (known.objects linked) noprim assignable h

/-- A coercion of a known value gives a known one. -/
theorem knows_of_coerceTo {tables : Tables} {t : TypeRef} {v w : Value} (known : W.Knows v)
    (made : v.coerceTo tables t = some w) : W.Knows w := by
  cases t with
  | primitive kind =>
    have prim := (Value.isInstanceOf_primitive kind w).1 (Value.isInstanceOf_of_coerceTo made)
    cases w with
    | object o => cases prim
    | array items => cases prim
    | _ => trivial
  | void => simp [Value.coerceTo, Value.isInstanceOf] at made
  | named name =>
    simp only [Value.coerceTo, Option.ite_none_right_eq_some, Option.some.injEq] at made
    exact made.2 ▸ known
  | array element =>
    simp only [Value.coerceTo, Option.ite_none_right_eq_some, Option.some.injEq] at made
    exact made.2 ▸ known

end World

/-! ### Worlds of one class -/

namespace Sample

def classOf (table : TypeTable) (source : String) : LoadedClass := ⟨0, codeOf table source, 0, 64⟩

/-- The first object of the class. -/
def objectOf (table : TypeTable) (source : String) : Object := ⟨1, classOf table source⟩

/-- One class and one object of it. -/
def worldOf (registry : Registry) (source : String) : World where
  registries := #[registry]
  path := 0
  classes n := if n = 0 then some (classOf registry.table source) else none
  units _ := unitOf source
  HasObject o := o = objectOf registry.table source

/-- The source compiles to a class that can be linked against the table. -/
def Links (table : TypeTable) (source : String) : Prop :=
  (compileSource table source).toOption.isSome = true ∧
    (∀ parent ∈ (codeOf table source).superclass :: (codeOf table source).interfaces,
      table.resolves parent = true) ∧
    (codeOf table source).name ∉ Builtin.all ∧
    (table.lookup (codeOf table source).name).isNone = true

instance (table : TypeTable) (source : String) : Decidable (Links table source) :=
  inferInstanceAs (Decidable (_ ∧ _ ∧ _ ∧ _))

theorem worldOf_classes {registry : Registry} {source : String} {n : Nat} {c : LoadedClass}
    (hc : (worldOf registry source).classes n = some c) :
    n = 0 ∧ c = classOf registry.table source := by
  simp only [worldOf, Option.ite_none_right_eq_some, Option.some.injEq] at hc
  exact ⟨hc.1, hc.2.symm⟩

theorem worldOf_linked {registry : Registry} {source : String} (links : Links registry.table source)
    (regular : registry.table.Regular) : (worldOf registry source).Linked where
  regular := regular
  compiled := by
    intro n c hc
    obtain ⟨rfl, rfl⟩ := worldOf_classes hc
    obtain ⟨compiled, tokens, scanned, parsed⟩ := compiles_of_isOk links.1
    exact ⟨rfl, rfl, source, tokens, scanned, parsed, compiled⟩
  resolved := by
    intro n c hc
    obtain ⟨rfl, rfl⟩ := worldOf_classes hc
    exact links.2.1
  fresh := by
    intro n c hc
    obtain ⟨rfl, rfl⟩ := worldOf_classes hc
    exact ⟨links.2.2.1, Option.isNone_iff_eq_none.1 links.2.2.2⟩
  distinct := by
    intro m n c d hc hd _
    rw [(worldOf_classes hc).1, (worldOf_classes hd).1]
  instances := by
    rintro o rfl
    rfl

end Sample

end Classwright

import Mathlib.Data.List.Dedup
import Mathlib.Data.List.Perm.Basic
import Classwright.Proofs.Implementing
import Classwright.Proofs.Lineage

/-!
# Methods that a class lacks

A class lacks a method, given by name and parameter types, if a type above it declares the method
abstract and nothing in the class or above it has code for it. What is reported is the method as it
is printed, with parameter types without packages, and each text is reported once. So every method
that a class lacks is reported, but two of them that are printed alike share their report.
-/

namespace Classwright

namespace Check

/-- Name and parameter types of a method. -/
structure Shape where
  name : String
  params : List TypeRef
deriving DecidableEq

def Shape.printed (p : Shape) : String :=
  p.name ++ "(" ++ String.intercalate "," (p.params.map TypeRef.simple) ++ ")"

namespace OwnedMethod

def shape (m : OwnedMethod) : Shape := ⟨m.method.name, m.method.params⟩

theorem sameParameters_iff {a b : OwnedMethod} : a.sameParameters b = true ↔ a.shape = b.shape := by
  simp [sameParameters, shape]

end OwnedMethod

namespace ClassContext

variable {cx : ClassContext}

/-- A declared type above a class: its superclass, one above that, or an interface that interfaces
of the class or of one of these lead to. -/
def Inherits (cx : ClassContext) (host : Descriptor) : Prop :=
  cx.table.lookup host.name = some host ∧
    (TypeTable.Leads cx.table TypeTable.superclassLinks cx.superclass host.name ∨
      ∃ i, TypeTable.Leads cx.table Descriptor.interfaces i host.name ∧ (i ∈ cx.interfaces ∨
        ∃ name above, TypeTable.Leads cx.table TypeTable.superclassLinks cx.superclass name ∧
          cx.table.lookup name = some above ∧ i ∈ above.interfaces))

/-- A type above the class declares a method of this shape, which is abstract or not. -/
def Declares (cx : ClassContext) (host : Descriptor) (isAbstract : Bool) (p : Shape) : Prop :=
  cx.Inherits host ∧ ∃ m ∈ host.methods, m.isAbstract = isAbstract ∧ ⟨m.name, m.params⟩ = p

/-- A method of this shape is inherited as abstract, and neither the class nor a type above it has
code for it. -/
def Lacks (cx : ClassContext) (p : Shape) : Prop :=
  (∃ host, cx.Declares host true p) ∧ (∀ own ∈ cx.methods, own.shape ≠ p) ∧
    ∀ host, ¬cx.Declares host false p

/-- The missing implementations that are reported: the method as it is printed, and who declares
it. -/
def reported (cx : ClassContext) (span : Span) : List (String × String) :=
  (cx.checkInheritance span).filterMap fun d =>
    match d.cause with
    | .missingImplementation _ signature owner => some (signature, owner)
    | _ => none

/-! ### What is inherited -/

theorem mem_inheritedMethods {m : OwnedMethod} : m ∈ cx.inheritedMethods ↔
    ∃ host, cx.Inherits host ∧ ∃ method ∈ host.methods, m = ⟨method, host.name, false⟩ := by
  rw [inheritedMethods, mem_ownedMethods]
  exact exists_congr fun host => and_congr_left' TypeTable.mem_lineage_iff

theorem exists_inherited_iff {isAbstract : Bool} {p : Shape} :
    (∃ m ∈ cx.inheritedMethods, m.method.isAbstract = isAbstract ∧ m.shape = p) ↔
      ∃ host, cx.Declares host isAbstract p := by
  constructor
  · rintro ⟨m, member, kind, shape⟩
    obtain ⟨host, inherits, method, declared, rfl⟩ := mem_inheritedMethods.1 member
    exact ⟨host, inherits, method, declared, kind, shape⟩
  · rintro ⟨host, inherits, method, declared, kind, shape⟩
    exact ⟨⟨method, host.name, false⟩,
      mem_inheritedMethods.2 ⟨host, inherits, method, declared, rfl⟩, kind, shape⟩

theorem implements_iff {m : OwnedMethod} : cx.implements cx.inheritedMethods m = true ↔
    (∃ own ∈ cx.methods, own.shape = m.shape) ∨ ∃ host, cx.Declares host false m.shape := by
  rw [← exists_inherited_iff]
  simp only [implements, Bool.or_eq_true, List.any_eq_true, Bool.and_eq_true, Bool.not_eq_true',
    OwnedMethod.sameParameters_iff]

theorem not_implements_iff {m : OwnedMethod} (member : m ∈ cx.inheritedMethods)
    (isAbstract : m.method.isAbstract = true) :
    cx.implements cx.inheritedMethods m = false ↔ cx.Lacks m.shape := by
  rw [← Bool.not_eq_true, implements_iff, not_or, not_exists, not_exists, Lacks,
    and_iff_right (exists_inherited_iff.1 ⟨m, member, isAbstract, rfl⟩)]
  exact and_congr_left' (forall_congr' fun own => by rw [not_and])

/-- The shapes of the methods that the class lacks. -/
def lacking (cx : ClassContext) : List Shape :=
  ((cx.inheritedMethods.filter fun m =>
    m.method.isAbstract && !cx.implements cx.inheritedMethods m).map (·.shape)).dedup

theorem nodup_lacking (cx : ClassContext) : cx.lacking.Nodup := List.nodup_dedup _

theorem mem_lacking_iff {p : Shape} : p ∈ cx.lacking ↔ cx.Lacks p := by
  simp only [lacking, List.mem_dedup, List.mem_map, List.mem_filter, Bool.and_eq_true,
    Bool.not_eq_true']
  constructor
  · rintro ⟨m, ⟨member, isAbstract, lacks⟩, rfl⟩
    exact (not_implements_iff member isAbstract).1 lacks
  · intro lacks
    obtain ⟨m, member, isAbstract, rfl⟩ := exists_inherited_iff.2 lacks.1
    exact ⟨m, ⟨member, isAbstract, (not_implements_iff member isAbstract).2 lacks⟩, rfl⟩

/-! ### What is reported -/

variable {inherited : List OwnedMethod} {before : List String} {ms : List OwnedMethod}

theorem of_mem_missing {m : OwnedMethod} (found : m ∈ cx.missing inherited before ms) :
    m ∈ ms ∧ m.method.isAbstract = true ∧ cx.implements inherited m = false ∧
      m.signature ∉ before := by
  induction ms generalizing before with
  | nil => cases found
  | cons next ms ih =>
    rw [missing] at found
    split at found
    · rename_i isMissing
      simp only [Bool.and_eq_true, Bool.not_eq_true', List.contains_eq_mem,
        decide_eq_false_iff_not] at isMissing
      rcases List.mem_cons.1 found with rfl | found
      · exact ⟨List.mem_cons_self, isMissing.1.1, isMissing.1.2, isMissing.2⟩
      · obtain ⟨member, isAbstract, lacks, new⟩ := ih found
        exact ⟨List.mem_cons_of_mem _ member, isAbstract, lacks,
          fun known => new (List.mem_cons_of_mem _ known)⟩
    · exact (ih found).imp_left (List.mem_cons_of_mem _)

/-- No text is reported twice. -/
theorem nodup_missing : ((cx.missing inherited before ms).map (·.signature)).Nodup := by
  induction ms generalizing before with
  | nil => exact .nil
  | cons next ms ih =>
    rw [missing]
    split
    · refine List.nodup_cons.2 ⟨fun again => ?_, ih⟩
      obtain ⟨m, found, same⟩ := List.mem_map.1 again
      exact (of_mem_missing found).2.2.2 (List.mem_cons.2 (.inl same))
    · exact ih

/-- Every abstract method without code is reported under its text, if that has not been reported
before. -/
theorem signature_mem_missing {m : OwnedMethod} (member : m ∈ ms)
    (isAbstract : m.method.isAbstract = true) (lacks : cx.implements inherited m = false)
    (new : m.signature ∉ before) :
    m.signature ∈ (cx.missing inherited before ms).map (·.signature) := by
  induction ms generalizing before with
  | nil => cases member
  | cons next ms ih =>
    rw [missing]
    split
    · by_cases same : m.signature = next.signature
      · exact List.mem_cons.2 (.inl same)
      · have member : m ∈ ms :=
          (List.mem_cons.1 member).resolve_left fun isNext => same (isNext ▸ rfl)
        exact List.mem_cons_of_mem _ (ih member fun known =>
          (List.mem_cons.1 known).elim same new)
    · rename_i isFine
      rcases List.mem_cons.1 member with rfl | member
      · refine absurd ?_ isFine
        simp [isAbstract, lacks, new]
      · exact ih member new

/-- The class is checked for all that it inherits: a text is reported if it is that of a method that
the class lacks. -/
theorem mem_missing_iff {signature : String} :
    signature ∈ (cx.missing cx.inheritedMethods [] cx.inheritedMethods).map (·.signature) ↔
      signature ∈ cx.lacking.map Shape.printed := by
  simp only [List.mem_map, mem_lacking_iff]
  constructor
  · rintro ⟨m, found, rfl⟩
    obtain ⟨member, isAbstract, lacks, -⟩ := of_mem_missing found
    exact ⟨m.shape, (not_implements_iff member isAbstract).1 lacks, rfl⟩
  · rintro ⟨p, lacks, rfl⟩
    obtain ⟨m, member, isAbstract, rfl⟩ := exists_inherited_iff.2 lacks.1
    have lacks := (not_implements_iff member isAbstract).2 lacks
    exact List.mem_map.1 (signature_mem_missing member isAbstract lacks nofun)

theorem cause_of_mem_checkOverride {span : Span} {own parent : OwnedMethod} {d : Diagnostic}
    (member : d ∈ cx.checkOverride span own parent) (className signature owner : String) :
    d.cause ≠ .missingImplementation className signature owner := by
  unfold checkOverride reportIf at member
  intro same
  split at member
  · cases member
  · rcases List.mem_append.1 member with member | member
    all_goals
      split at member
      · rw [List.mem_singleton.1 member] at same
        cases same
      · cases member

/-- Overrides are wrong for other reasons. -/
theorem reported_eq (cx : ClassContext) (span : Span) : cx.reported span
    = (cx.missing cx.inheritedMethods [] cx.inheritedMethods).map fun m =>
      (m.signature, m.owner) := by
  rw [reported, checkInheritance, List.filterMap_append, List.filterMap_map]
  have none_ : ∀ ds : List Diagnostic, (∀ d ∈ ds, ∀ className signature owner,
      d.cause ≠ .missingImplementation className signature owner) →
      ds.filterMap (fun d => match d.cause with
        | .missingImplementation _ signature owner => some (signature, owner)
        | _ => none) = [] := by
    intro ds other
    refine List.filterMap_eq_nil_iff.2 fun d member => ?_
    split
    · rename_i cause
      exact absurd cause (other d member _ _ _)
    · rfl
  rw [none_, List.nil_append]
  · exact congrFun List.filterMap_eq_map _
  · intro d member
    obtain ⟨m, -, member⟩ := List.mem_flatMap.1 member
    cases m with
    | method decl own =>
      obtain ⟨parent, -, member⟩ := List.mem_flatMap.1 member
      exact cause_of_mem_checkOverride member
    | _ => cases member

/-- A missing implementation is reported for a method that the class lacks, with one of the types
that declare it. -/
theorem of_mem_reported {span : Span} {signature owner : String}
    (found : (signature, owner) ∈ cx.reported span) :
    ∃ host p, host.name = owner ∧ cx.Declares host true p ∧ cx.Lacks p ∧
      p.printed = signature := by
  rw [reported_eq] at found
  obtain ⟨m, missing, same⟩ := List.mem_map.1 found
  obtain ⟨rfl, rfl⟩ := Prod.mk.inj same
  obtain ⟨member, isAbstract, lacks, -⟩ := of_mem_missing missing
  have lacks := (not_implements_iff member isAbstract).1 lacks
  obtain ⟨host, inherits, method, declared, rfl⟩ := mem_inheritedMethods.1 member
  exact ⟨host, _, rfl, ⟨inherits, method, declared, isAbstract, rfl⟩, lacks, rfl⟩

end ClassContext

open ClassContext

/-- A class lacks finitely many methods. The missing implementations that are reported are printed
as these are, each text once, and each is reported with a type above the class that declares a
method of this text that the class lacks. So there is one report for each method that the class
lacks, and no other one, exactly if no two of these methods are printed alike. -/
theorem missing_implementations (cx : ClassContext) (span : Span) :
    ∃ lacking : List Shape, lacking.Nodup ∧ (∀ p, p ∈ lacking ↔ cx.Lacks p) ∧
      ((cx.reported span).map (·.1)).Perm (lacking.map Shape.printed).dedup ∧
      (((cx.reported span).map (·.1)).Perm (lacking.map Shape.printed) ↔
        ∀ p q, cx.Lacks p → cx.Lacks q → p.printed = q.printed → p = q) ∧
      ∀ signature owner, (signature, owner) ∈ cx.reported span →
        ∃ host p, host.name = owner ∧ cx.Declares host true p ∧ cx.Lacks p ∧
          p.printed = signature := by
  have once : ((cx.reported span).map (·.1)).Nodup := by
    rw [reported_eq, List.map_map]
    exact nodup_missing
  have texts : ((cx.reported span).map (·.1)).Perm (cx.lacking.map Shape.printed).dedup := by
    refine (List.perm_ext_iff_of_nodup once (List.nodup_dedup _)).2 fun signature => ?_
    rw [reported_eq, List.map_map, List.mem_dedup]
    exact mem_missing_iff
  refine ⟨cx.lacking, cx.nodup_lacking, fun p => mem_lacking_iff, texts, ?_,
    fun _ _ => of_mem_reported⟩
  constructor
  · intro each p q lacksP lacksQ same
    exact List.inj_on_of_nodup_map (each.nodup_iff.1 once) (mem_lacking_iff.2 lacksP)
      (mem_lacking_iff.2 lacksQ) same
  · intro apart
    have distinct : (cx.lacking.map Shape.printed).Nodup :=
      cx.nodup_lacking.map_on fun p lacksP q lacksQ =>
        apart p q (mem_lacking_iff.1 lacksP) (mem_lacking_iff.1 lacksQ)
    rwa [distinct.dedup] at texts

end Check

namespace Sample

open Check

/-- Two interfaces with a method whose parameter types are of one name in two packages. -/
def twins : TypeTable where
  types := [{ name := "a.X", kind := .interface }, { name := "b.X", kind := .interface },
    { name := "Left", kind := .interface, methods := [
      { name := "m", returnType := .void, params := [.named "a.X"], isAbstract := true }] },
    { name := "Right", kind := .interface, methods := [
      { name := "m", returnType := .void, params := [.named "b.X"], isAbstract := true }] }]

/-- A class of no methods that implements both. -/
def idle : Source.CompilationUnit where
  imports := []
  decl := {
    modifiers := {}
    name := "Idle"
    superclass := none
    interfaces := [⟨"Left", 0, ⟨22, 26, 1, 23⟩⟩, ⟨"Right", 0, ⟨28, 33, 1, 29⟩⟩]
    members := []
    span := ⟨0, 37, 1, 1⟩ }

/-- One of two missing methods is reported. -/
theorem twins_reported_once : ¬∀ (table : TypeTable) (unit : Source.CompilationUnit)
    (lacking : List Shape), lacking.Nodup → (∀ p, p ∈ lacking ↔ (contextOf table unit).Lacks p) →
      (((contextOf table unit).reported unit.decl.span).map (·.1)).Perm
        (lacking.map Shape.printed) := by
  intro each
  have one : ((contextOf twins idle).reported idle.decl.span).length = 1 := by
    rw [ClassContext.reported_eq]
    decide +kernel
  have two : (contextOf twins idle).lacking.length = 2 := by decide +kernel
  have same := (each twins idle _ (contextOf twins idle).nodup_lacking
    fun _ => ClassContext.mem_lacking_iff).length_eq
  rw [List.length_map, List.length_map, one, two] at same
  cases same

end Sample

end Classwright

import Classwright.Proofs.Foreseeing
import Classwright.Proofs.Headers

/-!
# Types that hooks nominate

A generated class is checked to stand below its contract, and nothing else is checked of it once it
is loaded. The types that the hooks nominate are names in the header of its source. So the class
stands below what these names stand for there, whatever the registries declare by then, and it keeps
doing so when it is remembered. A nominated type whose simple name the hooks import for another type
is not implemented: the import is.
-/

namespace Classwright

open Generation Synthesis

/-! ### Stored headers -/

/-- A class is read with the supertypes that it was stored with. -/
theorem Code.Class.decode_supertypes {c c' : Code.Class} {depth : Nat}
    (read : decode depth (c.encode Constant.encode) = some c') :
    c'.superclass = c.superclass ∧ c'.interfaces = c.interfaces := by
  cases depth with
  | zero => cases read
  | succ depth =>
    rw [c.decode_members] at read
    obtain ⟨version, _, read⟩ := Option.bind_eq_some_iff.1 read
    obtain ⟨interfaces, foundInterfaces, read⟩ := Option.bind_eq_some_iff.1 read
    obtain ⟨fields, _, read⟩ := Option.bind_eq_some_iff.1 read
    obtain ⟨statics, _, read⟩ := Option.bind_eq_some_iff.1 read
    obtain ⟨constructors, _, read⟩ := Option.bind_eq_some_iff.1 read
    obtain ⟨methods, _, read⟩ := Option.bind_eq_some_iff.1 read
    cases read
    exact ⟨rfl, (strings_restore c.interfaces).yields _ _ foundInterfaces⟩

/-! ### Types above a class in every table -/

namespace LoadedClass

variable {c : LoadedClass} {name : String}

/-- Whatever the registries declare, the class is a subtype. -/
def Implements (c : LoadedClass) (name : String) : Prop :=
  ∀ tables, c.isSubtypeOf tables name = true

theorem implements_object (c : LoadedClass) : c.Implements Builtin.object := by
  intro tables
  rw [isSubtypeOf, beq_self_eq_true, Bool.or_true, Bool.true_or]

theorem implements_of_mem (member : name ∈ c.code.superclass :: c.code.interfaces) :
    c.Implements name := by
  intro tables
  rw [isSubtypeOf, Bool.or_eq_true, List.any_eq_true]
  exact .inr ⟨name, member, TypeTable.isSubtype_refl _ name⟩

end LoadedClass

/-! ### The class of a contract -/

/-- The class implements what the names of its contract and of the nominated types stand for. -/
def Nominates (hooks : Hooks) (contract : Descriptor) (c : LoadedClass) : Prop :=
  ∀ d ∈ contract :: nominees hooks contract, c.Implements (headerDenotes hooks contract d.name)

section

variable {hooks : Hooks} {contract d : Descriptor} {c : LoadedClass}

theorem headerDenotes_object (hooks : Hooks) (contract : Descriptor) :
    headerDenotes hooks contract Builtin.object = Builtin.object := by
  have builtin : Builtin.object ∈ Builtin.all := by decide
  rw [headerDenotes, Check.denoted, if_pos (.inr builtin)]

/-- Contract and nominated types are in the header, unless one of them is `Object`. -/
theorem mem_header (member : d ∈ contract :: nominees hooks contract) :
    d.name = Builtin.object ∨ d.name ∈ meantSuperclass hooks contract ∨
      d.name ∈ meantInterfaces hooks contract := by
  have extended : ∀ name, (if contract.isInterface then (hooks.superclass contract).map (·.name)
      else some contract.name) = some name →
      name = Builtin.object ∨ name ∈ meantSuperclass hooks contract := by
    intro name chosen
    by_cases base : name = Builtin.object
    · exact .inl base
    · refine .inr (Option.mem_filter_iff.2 ⟨chosen, ?_⟩)
      simpa using base
  rcases List.mem_cons.1 member with rfl | member
  · cases isInterface : d.isInterface with
    | true => exact .inr (.inr (mem_meantInterfaces_iff.2 (.inr ⟨isInterface, rfl⟩)))
    | false => exact (extended d.name (by rw [isInterface]; rfl)).imp_right .inl
  · rcases List.mem_append.1 member with given | given
    · split at given
      · rename_i isInterface
        have chosen : hooks.superclass contract = some d := Option.mem_toList.1 given
        exact (extended d.name (by rw [if_pos isInterface, chosen]; rfl)).imp_right .inl
      · cases given
    · exact .inr (.inr (mem_meantInterfaces_iff.2 (.inl ⟨d, given, rfl⟩)))

theorem generate_nominates {g : Generator} (scripted : g.Scripted)
    (legal : LegalHeader g.hooks contract) {s : Store} {q : Generator × Store}
    (ran : generate contract (g, s) = (.ok c, q)) : Nominates g.hooks contract c := by
  obtain ⟨depth, loader⟩ := scripted.loader
  obtain ⟨source, types, code, made, compiled, decoded, _⟩ :=
    generate_compiled scripted.compiler loader ran
  rw [Code.Class.ofText?_toText_eq_decode] at decoded
  obtain ⟨superclass, interfaces⟩ := Code.Class.decode_supertypes decoded
  obtain ⟨extended, implemented⟩ := compiled_header legal made compiled
  intro d member
  rcases mem_header member with base | given | given
  · rw [base, headerDenotes_object]
    exact c.implements_object
  · refine LoadedClass.implements_of_mem ?_
    rw [superclass, extended, given]
    exact List.mem_cons_self
  · refine LoadedClass.implements_of_mem ?_
    rw [interfaces, implemented]
    exact .tail _ (List.mem_map_of_mem given)

end

/-! ### Runs of a generator -/

/-- What is reached from a generator and a store by requests, where the store may also change
without the generator. -/
inductive Reaches (others : Store → Store → Prop) (start : Generator × Store) :
    Generator × Store → Prop
  | start : Reaches others start start
  | request {p : Generator × Store} (request : Request) :
    Reaches others start p → Reaches others start (request.after p)
  | other {g : Generator} {s s' : Store} :
    others s s' → Reaches others start (g, s) → Reaches others start (g, s')

/-- Every remembered class implements what was nominated for its contract. -/
structure Nominating (hooks : Hooks) (g : Generator) : Prop where
  scripted : g.Scripted
  hooked : g.hooks = hooks
  remembered : ∀ contract c, g.cached? contract = some c → LegalHeader hooks contract →
    Nominates hooks contract c

namespace Nominating

variable {hooks : Hooks} {p q : Generator × Store}

theorem moves (h : Nominating hooks p.1) (moved : Moves p q) : Nominating hooks q.1 := by
  refine ⟨?_, ?_, fun contract c found =>
    h.remembered contract c ((moved.cached? contract).symm.trans found)⟩
  · rw [moved.setup]
    exact ⟨h.scripted.compiler, h.scripted.loader⟩
  · rw [moved.setup]
    exact h.hooked

/-- A resolution keeps that, and its class does so, too. -/
theorem resolve (h : Nominating hooks p.1) (contract : Descriptor) :
    Nominating hooks (Classwright.resolve contract p).2.1 ∧
      ∀ c q, Classwright.resolve contract p = (.ok c, q) → LegalHeader hooks contract →
        Nominates hooks contract c := by
  obtain ⟨c, member, ran⟩ | ⟨stop, q, moved, ran⟩ | ⟨c, q, _, _, made, moved, ran⟩ :=
    resolve_cases contract p
  · rw [ran]
    refine ⟨h, fun d q same => ?_⟩
    cases same
    exact h.remembered contract c member
  · rw [ran]
    exact ⟨h.moves moved, nofun⟩
  · have new : LegalHeader hooks contract → Nominates hooks contract c := by
      rw [← h.hooked]
      exact fun legal => generate_nominates h.scripted legal made
    have kept := h.moves moved
    rw [ran]
    refine ⟨⟨⟨kept.scripted.compiler, kept.scripted.loader⟩, kept.hooked, ?_⟩, ?_⟩
    · intro other d found
      rw [Generator.cached?_remember] at found
      split at found
      · rename_i same
        subst same
        cases found
        exact new
      · exact kept.remembered other d found
    · intro d q same
      cases same
      exact new

theorem after (h : Nominating hooks p.1) (request : Request) :
    Nominating hooks (request.after p).1 := by
  cases request with
  | resolve contract => exact (h.resolve contract).1
  | newInstance contract =>
    obtain ⟨s, _, ended⟩ := newInstance_ends contract p
    change Nominating hooks (newInstance contract p).2.1
    rw [ended]
    exact (h.resolve contract).1
  | synthesize contract => exact h
  | isCached contract => exact h
  | cachedCount => exact h

end Nominating

section

variable {others : Store → Store → Prop} {start p : Generator × Store}

theorem Reaches.nominating {hooks : Hooks} (reached : Reaches others start p)
    (h : Nominating hooks start.1) : Nominating hooks p.1 := by
  induction reached with
  | start => exact h
  | request request _ ih => exact ih.after request
  | other _ _ ih => exact ih

theorem Reaches.grounded (reached : Reaches others start p)
    (keep : ∀ s s', others s s' → s.KeepsTypes s') (h : Grounded start) : Grounded p := by
  induction reached with
  | start => exact h
  | request request _ ih => exact ih.after request
  | other changed _ ih => exact ih.elsewhere (keep _ _ changed)

end

/-- Whatever a generator with the compiler and the loader of this library has been asked for before,
and however the types in the registries have changed meanwhile: the class that a contract is
resolved to stands below all that the names of the contract and of the nominated types stand for in
its source, and it does so for good. Each of these types is meant itself unless the hooks import
another type of its simple name. The class stands below its contract in any case, as long as no type
has been declared in place of another. -/
theorem nominees_implemented {g : Generator} {depth : Nat} (compiler : g.compiler = scriptCompiler)
    (loader : g.loader = unitLoader depth) (fresh : g.cache = {}) {s : Store}
    {others : Store → Store → Prop} {p : Generator × Store} (reached : Reaches others (g, s) p)
    {contract : Descriptor} (legal : LegalHeader g.hooks contract) {c : LoadedClass}
    {q : Generator × Store} (ran : resolve contract p = (.ok c, q)) :
    (∀ d ∈ contract :: nominees g.hooks contract,
      c.Implements (headerDenotes g.hooks contract d.name) ∧
      ((∀ path ∈ g.hooks.imports contract, simpleName path = d.name → path = d.name) →
        c.Implements d.name)) ∧
    (g.registry < s.registries.size → (∀ t t', others t t' → t.KeepsTypes t') →
      c.isSubtypeOf q.2.tables contract.name = true) := by
  have nominating : Nominating g.hooks p.1 := by
    refine reached.nominating ⟨⟨compiler, depth, loader⟩, rfl, fun contract c found => ?_⟩
    rw [Generator.cached?_fresh fresh] at found
    cases found
  constructor
  · intro d member
    have implements := (nominating.resolve contract).2 c q ran legal d member
    refine ⟨implements, fun unshadowed => ?_⟩
    rwa [headerDenotes, Check.denoted_of_unshadowed unshadowed] at implements
  · intro registered keep
    have keeps : g.loader.Keeps := by
      rw [loader]
      exact unitLoader_keeps depth
    have grounded : Grounded p := by
      refine reached.grounded keep ⟨keeps, registered, fun contract c found => ?_⟩
      rw [Generator.cached?_fresh fresh] at found
      cases found
    have after := grounded.resolve contract
    rw [ran] at after
    obtain ⟨d, found, ended⟩ | ⟨stop, q', _, ended⟩ | ⟨d, q', _, _, _, _, ended⟩ :=
      resolve_cases contract p
    · cases ended.symm.trans ran
      exact (after.stands contract c found).below
    · cases ended.symm.trans ran
    · cases ended.symm.trans ran
      refine (after.stands contract c ?_).below
      exact (Generator.cached?_remember _ contract c contract).trans (if_pos rfl)

namespace Sample

/-- An interface without methods. -/
def bare (name : String) : Descriptor := { name, kind := .interface }

/-- A class that can be extended. -/
def figure : Descriptor := { name := "Shape", kind := .concreteClass }

/-- A generator whose hooks import an interface and nominate one. -/
def importer (nominee : String) : Generator where
  hooks := { imports := fun _ => ["b.Marker"], interfaces := fun _ => [bare nominee] }
  registry := 0
  workplace := ["work"]
  compiler := scriptCompiler
  loader := unitLoader 64

def library : Store := { registries := #[{ table := ⟨[bare "b.Marker"]⟩ }] }

theorem importer_legal {nominee : String} (legal : Source.isQualifiedName nominee = true) :
    LegalHeader (importer nominee).hooks figure where
  name := by decide +kernel
  imports := by
    intro path member
    rw [List.mem_singleton.1 member]
    decide +kernel
  nominees := by
    intro d member
    rw [List.mem_singleton.1 member]
    exact legal

/-- What a run has ended with, if it has ended with a value. -/
theorem exists_value {ε α β : Type} {p : Except ε α × β} (succeeds : p.1.isOk = true) :
    ∃ a, p = (.ok a, p.2) := by
  obtain ⟨result, b⟩ := p
  cases result with
  | ok a => exact ⟨a, rfl⟩
  | error e => cases succeeds

/-- The generator and the store after a class has been made. -/
def tagged : Generator × Store := (Request.resolve figure).after (importer "b.Tag", library)

theorem tagged_runs : (resolve figure tagged).1.isOk = true := by
  have foreseen : (foreseen? (importer "b.Tag") library 64 figure).isSome = true := by decide +kernel
  obtain ⟨c, foreseen⟩ := Option.isSome_iff_exists.1 foreseen
  have ran := resolve_of_foreseen rfl rfl rfl rfl rfl foreseen
  have remembers : tagged.1.cached? figure = some c := by
    rw [tagged, Request.after, ran]
    exact (Generator.cached?_remember _ figure c figure).trans (if_pos rfl)
  rw [resolve_cached rfl remembers]
  rfl

theorem importer_runs : (match resolve figure (importer "Marker", library) with
    | (.ok c, q) => ["b.Marker", "Marker"].map (c.isSubtypeOf q.2.tables)
    | (.error _, _) => []) = [true, false] := by
  have foreseen : (foreseen? (importer "Marker") library 64 figure).map (fun c =>
      ["b.Marker", "Marker"].map (c.isSubtypeOf (linkedFor (importer "Marker") library figure).tables))
        = some [true, false] := by decide +kernel
  obtain ⟨c, foreseen, below⟩ := Option.map_eq_some_iff.1 foreseen
  rw [resolve_of_foreseen rfl rfl rfl rfl rfl foreseen]
  exact below

/-- A type with a package is implemented, and the class is remembered. -/
theorem tag_implemented : (importer "b.Tag").cache = {} ∧
    ∃ c q, resolve figure tagged = (.ok c, q) ∧ c.Implements "Shape" ∧ c.Implements "b.Tag" ∧
      c.isSubtypeOf q.2.tables "Shape" = true := by
  obtain ⟨c, ran⟩ := exists_value tagged_runs
  have loads : (importer "b.Tag").loader = unitLoader 64 := rfl
  have reached : Reaches Store.KeepsTypes (importer "b.Tag", library) tagged := .request _ .start
  have legal : LegalHeader (importer "b.Tag").hooks figure := importer_legal (by decide +kernel)
  obtain ⟨implements, stands⟩ := nominees_implemented rfl loads rfl reached legal ran
  have unshadowed : ∀ name ∈ ["Shape", "b.Tag"], ∀ path ∈ (importer "b.Tag").hooks.imports figure,
      simpleName path = name → path = name := by decide +kernel
  refine ⟨rfl, c, _, ran, ?_, ?_, stands (by decide) fun _ _ keep => keep⟩
  · exact (implements figure List.mem_cons_self).2 (unshadowed _ (by decide))
  · exact (implements (bare "b.Tag") (by decide)).2 (unshadowed _ (by decide))

/-- The class implements the import of the name and not the type that is nominated. -/
theorem import_implemented : LegalHeader (importer "Marker").hooks figure ∧
    bare "Marker" ∈ nominees (importer "Marker").hooks figure ∧
    ∃ c q, resolve figure (importer "Marker", library) = (.ok c, q) ∧
      c.isSubtypeOf q.2.tables "b.Marker" = true ∧
      c.isSubtypeOf q.2.tables "Marker" = false := by
  refine ⟨importer_legal (by decide +kernel), by decide, ?_⟩
  have run := importer_runs
  cases ran : resolve figure (importer "Marker", library) with
  | mk result q =>
    rw [ran] at run
    cases result with
    | error stop => cases run
    | ok c =>
      obtain ⟨there, rest⟩ := List.cons.inj run
      exact ⟨c, q, rfl, there, (List.cons.inj rest).1⟩

end Sample

end Classwright

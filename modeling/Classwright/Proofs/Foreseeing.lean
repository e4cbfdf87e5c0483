import Classwright.Proofs.Making

/-!
# What a contract is resolved to

The class that a contract is resolved to can be told before a file is written: its code is what the
source is compiled to, if this is the code again once it was stored. Whether it is needs no stored
text, only the code, so a resolution of a given contract is evaluated without the files.
-/

namespace Classwright

open Check Generation

namespace Sample

/-- The code that a text is compiled to, if it is the code again once it was stored. -/
def kept? (table : TypeTable) (text : String) : Option Code.Class :=
  match Source.scan text with
  | .error _ => none
  | .ok tokens =>
    match Source.parse tokens with
    | .error _ => none
    | .ok unit =>
      match compileUnit table unit with
      | .error _ => none
      | .ok code =>
        if unit.Literals Source.Literal.Whole ∧ code.Countable ∧ code.Readable then some code
        else none

theorem kept?_spec {table : TypeTable} {text : String} {code : Code.Class}
    (found : kept? table text = some code) : compileSource table text = .ok code ∧
      code.version = Code.formatVersion ∧
      (Code.Class.ofText? code.toText = if code.Readable then some code else none) ∧
      code.Readable ∧
      ∀ t ∈ code.superclass :: code.interfaces, table.resolves t = true := by
  unfold kept? at found
  cases scans : Source.scan text with
  | error e =>
    rw [scans] at found
    cases found
  | ok tokens =>
    rw [scans] at found
    dsimp only at found
    cases parsed : Source.parse tokens with
    | error e =>
      rw [parsed] at found
      cases found
    | ok unit =>
      rw [parsed] at found
      dsimp only at found
      cases compiled : compileUnit table unit with
      | error e =>
        rw [compiled] at found
        cases found
      | ok other =>
        rw [compiled] at found
        obtain ⟨⟨whole, countable, readable⟩, same⟩ := Option.ite_none_right_eq_some.1 found
        cases same
        have accepted := accepted_of_compileUnit compiled
        exact ⟨compileSource_of_compileUnit scans parsed compiled, accepted.version,
          ofText?_of_compiles compiled whole countable, readable, accepted.resolves⟩

end Sample

section

variable {g : Generator} {s : Store} {contract : Descriptor} {depth : Nat} {c : LoadedClass}

/-- What is declared for a contract, and a class without static fields that has been linked. -/
def linkedFor (g : Generator) (s : Store) (contract : Descriptor) : Store :=
  let declared := (declaring (g.needs contract) (g, s)).2
  { declared with statics := declared.statics.push [] }

/-- A contract that has not been resolved before is resolved to what its source is compiled to, if
this is kept and has no static fields. -/
theorem resolve_of_kept {r : Registry} {source : ClassSource} {code : Code.Class}
    (compiler : g.compiler = scriptCompiler) (loader : g.loader = unitLoader depth)
    (disk : g.disk = {}) (implementable : contract.isContract = true)
    (new : g.cached? contract = none)
    (matching : (s.registry g.registry).defineMatching contract = .ok r)
    (sourced : g.source contract = .ok source) (fits : source.Fits g.workplace)
    (kept : Sample.kept? ((declaring (g.needs contract) (g, s)).2.registry g.registry).table
      source.text = some code) (named : code.name = source.className)
    (noStatics : code.statics.isEmpty = true) {n : Nat}
    (place : n = (declaring (g.needs contract) (g, s)).2.statics.size)
    (below : LoadedClass.isSubtypeOf (linkedFor g s contract).tables ⟨n, code, g.registry, depth⟩
      contract.name = true) :
    resolve contract (g, s) = (.ok ⟨n, code, g.registry, depth⟩, g.resume (g.workplaces + 1)
      (g.compilations + 1) (g.loads + 1) (g.cache.keep contract ⟨n, code, g.registry, depth⟩),
      linkedFor g s contract) := by
  obtain ⟨compiles, version, stored, readable, resolves⟩ := Sample.kept?_spec kept
  have links : link code g.registry depth (declaring (g.needs contract) (g, s)).2
      = (.ok ⟨n, code, g.registry, depth⟩, linkedFor g s contract) := by
    rw [link, linkWith_eq _ resolves, List.isEmpty_iff.1 noStatics, place]
    rfl
  have generated := generate_ok compiler loader disk matching sourced fits compiles named version
    stored readable links below
  rw [resolve_missing implementable new, generated]
  rfl

/-- The class that a contract is resolved to, if it has no static fields. -/
def foreseen? (g : Generator) (s : Store) (depth : Nat) (contract : Descriptor) :
    Option LoadedClass :=
  match (s.registry g.registry).defineMatching contract, g.source contract with
  | .ok _, .ok source =>
    let declared := (declaring (g.needs contract) (g, s)).2
    (Sample.kept? (declared.registry g.registry).table source.text).bind fun code =>
      let c : LoadedClass := ⟨declared.statics.size, code, g.registry, depth⟩
      if source.Fits g.workplace ∧ code.name = source.className ∧ code.statics.isEmpty = true ∧
        c.isSubtypeOf (linkedFor g s contract).tables contract.name = true then some c else none
  | _, _ => none

/-- A contract that has not been resolved before is resolved to this class. -/
theorem resolve_of_foreseen (compiler : g.compiler = scriptCompiler)
    (loader : g.loader = unitLoader depth) (disk : g.disk = {})
    (implementable : contract.isContract = true) (new : g.cached? contract = none)
    (foreseen : foreseen? g s depth contract = some c) :
    resolve contract (g, s) = (.ok c, g.resume (g.workplaces + 1) (g.compilations + 1)
      (g.loads + 1) (g.cache.keep contract c), linkedFor g s contract) := by
  unfold foreseen? at foreseen
  split at foreseen
  · rename_i r source matching sourced
    obtain ⟨code, kept, rest⟩ := Option.bind_eq_some_iff.1 foreseen
    obtain ⟨⟨fits, named, noStatics, below⟩, same⟩ := Option.ite_none_right_eq_some.1 rest
    cases same
    exact resolve_of_kept compiler loader disk implementable new matching sourced fits kept named
      noStatics rfl below
  · cases foreseen

end

end Classwright

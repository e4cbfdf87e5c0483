import Classwright.Generation.Cache
import Classwright.Generation.Loader

/-!
# Generators

A generator implements contracts: it synthesizes a source, has it compiled and loads the class. A
class that was loaded once is the answer for its contract from then on; what failed is tried again.
-/

namespace Classwright

/-- What a file system refuses to a generator, which may be something else each time; it is told
how often it was asked before. -/
structure Disk where
  /-- When a directory to work in is made. -/
  making : Nat → Option FileFault := fun _ => none
  /-- When a source is written there. -/
  writing : Nat → Option FileFault := fun _ => none

structure Generator where
  hooks : Hooks
  /-- The registry against which the classes are compiled and linked. -/
  registry : Nat
  entries : List Path := []
  /-- The directory in which sources are compiled, each time an empty one. -/
  workplace : Path
  compiler : Compiler
  loader : Loader
  disk : Disk := {}
  cache : Cache := {}
  /-- How often a directory to work in was asked for. -/
  workplaces : Nat := 0
  /-- How often the compiler was asked. -/
  compilations : Nat := 0
  /-- How often the loader was asked. -/
  loads : Nat := 0

/-- Runs that may change a generator as well as the store. -/
abbrev Generation := ExceptT Stop (StateM (Generator × Store))

namespace Generation

variable {α : Type}

def onStore (body : Run α) : Generation α := fun (g, s) =>
  let (result, s) := body s
  (result, g, s)

def generator : Generation Generator := return (← get).1

def modifyGenerator (change : Generator → Generator) : Generation Unit :=
  modify fun (g, s) => (change g, s)

def fail (f : Failure) : Generation α := throw (.failed f)

end Generation

open Generation

/-- Declares the type if its name is free. A name that stands for another type is refused. -/
def Registry.defineMatching (r : Registry) (d : Descriptor) : Except Failure Registry :=
  match r.table.lookup d.name with
  | none => .ok (r.defineIfAbsent d)
  | some known => if known = d then .ok r else .error (.conflicting d.name)

namespace Generator

def cached? (g : Generator) (contract : Descriptor) : Option LoadedClass :=
  g.cache.content? contract

def isCached (g : Generator) (contract : Descriptor) : Bool :=
  (g.cache.cell? contract).any (·.content.isSome)

def cachedCount (g : Generator) : Nat := g.cache.filled

/-- The source that is compiled for a contract. -/
def source (g : Generator) (contract : Descriptor) : Except SynthesisError ClassSource :=
  synthesize g.hooks contract (classNameFor contract.name)

/-- A new directory that holds nothing but the source. -/
def layOut (g : Generator) (source : ClassSource) : Except FileFault FileTree :=
  match g.disk.making g.workplaces, g.disk.writing g.workplaces with
  | some f, _ | none, some f => .error f
  | none, none =>
    .ok (FileTree.put { directories := [g.workplace] } (g.workplace.join [source.fileName])
      source.text)

end Generator

/-- Declares the contract and what the hooks name for it, and gives the source. -/
def prepare (contract : Descriptor) : Generation ClassSource := do
  let (g, s) ← get
  match (s.registry g.registry).defineMatching contract with
  | .error f => fail f
  | .ok registry => do
    set (g, s.updateRegistry g.registry fun _ => registry)
    match g.source contract with
    | .error e => fail (.synthesis e)
    | .ok source => do
      modify fun (g, s) => (g, s.updateRegistry g.registry
        fun r => source.nominated.foldl Registry.defineIfAbsent r)
      return source

/-- Has the source compiled; the answer is the directory with what the compiler has left. -/
def compile (source : ClassSource) : Generation FileTree := do
  let (g, s) ← get
  modifyGenerator fun g => { g with workplaces := g.workplaces + 1 }
  match g.layOut source with
  | .error f => fail (.file f)
  | .ok files => do
    let request : CompileRequest :=
      ⟨(s.registry g.registry).table, g.entries, g.workplace.join [source.fileName]⟩
    let (outcome, files) := g.compiler g.compilations request files
    modifyGenerator fun g => { g with compilations := g.compilations + 1 }
    match outcome with
    | .broken f => fail (.file f)
    | .failed diagnostics => fail (.compilation source.className diagnostics)
    | .succeeded => return files

/-- Loads the compiled class, which must stand below the contract. -/
def load (contract : Descriptor) (className : String) (files : FileTree) :
    Generation LoadedClass := do
  let g ← generator
  modifyGenerator fun g => { g with loads := g.loads + 1 }
  let c ← onStore (g.loader g.loads ⟨files, g.workplace, className, g.registry⟩)
  let tables ← onStore Run.tables
  if c.isSubtypeOf tables contract.name then return c
  else fail (.load className (.notImplementing contract.name))

/-- Synthesizes, compiles and loads a class for the contract. -/
def generate (contract : Descriptor) : Generation LoadedClass := do
  let source ← prepare contract
  let files ← compile source
  load contract source.className files

/-- The cell of the contract, a new one if it has none. -/
def cellFor (contract : Descriptor) : Generation Cell := do
  let (cell, cache) := (← generator).cache.entry contract
  modifyGenerator fun g => { g with cache }
  return cell

/-- What is in the cell; what is made for an empty cell is put into it. -/
def Cell.getOrInit (cell : Cell) (init : Generation LoadedClass) : Generation LoadedClass :=
  match cell.content with
  | some c => return c
  | none => do
    let c ← init
    modifyGenerator fun g => { g with cache := g.cache.fill cell.address c }
    return c

/-- Takes the cell of the contract away if it is still this one and empty. -/
def Cell.retract (cell : Cell) (contract : Descriptor) : Generation Unit :=
  modifyGenerator fun g => { g with
    cache := g.cache.removeIf contract fun current =>
      current.address == cell.address && current.content.isNone }

/-- The class that implements the contract, generated if there is none yet. -/
def resolve (contract : Descriptor) : Generation LoadedClass := do
  if !contract.isContract then
    fail (.synthesis (.notImplementable contract.name contract.kind))
  match (← generator).cached? contract with
  | some c => return c
  | none => do
    let cell ← cellFor contract
    tryCatch (cell.getOrInit (generate contract)) fun stop => do
      cell.retract contract
      throw stop

/-- A new instance of the class that implements the contract. -/
def newInstance (contract : Descriptor) : Generation Object := do
  let c ← resolve contract
  let o ← onStore c.instantiate
  if c.isSubtypeOf (← onStore Run.tables) contract.name then return o
  else fail (.notImplemented c.code.name contract.name)

end Classwright

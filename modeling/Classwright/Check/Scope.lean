import Classwright.Check.Diagnostic
import Classwright.Source.Tree
import Classwright.Type.Table

/-!
# Resolving type names

A dotted name stands for itself. A simple name stands for the class itself, a builtin type, an
imported type or a declared type without package, in this order.
-/

namespace Classwright.Check

open Source

/-- What type names of one source may stand for. -/
structure TypeScope where
  table : TypeTable
  imports : List (String × String)
  ownName : String

namespace TypeScope

def withOwnName (table : TypeTable) (ownName : String) : TypeScope := ⟨table, [], ownName⟩

def imported? (s : TypeScope) (simple : String) : Option String :=
  (s.imports.find? (·.1 == simple)).map (·.2)

/-- Adds an import, unless it is unknown or takes a name that another import has. -/
def addImport (s : TypeScope) (i : Import) : Except Diagnostic TypeScope :=
  if !s.table.resolves i.path then .error ⟨.unknownClass i.path, i.span⟩
  else
    match s.imported? (simpleName i.path) with
    | none => .ok { s with imports := s.imports ++ [(simpleName i.path, i.path)] }
    | some existing =>
      if existing = i.path then .ok s
      else .error ⟨.importClash (simpleName i.path) existing, i.span⟩

/-- The scope of a source with these imports, and what is wrong with them. -/
def ofImports (table : TypeTable) (ownName : String) (imports : List Import) :
    TypeScope × List Diagnostic :=
  imports.foldl
    (fun (s, ds) i => match s.addImport i with
      | .ok s => (s, ds)
      | .error d => (s, ds ++ [d]))
    (withOwnName table ownName, [])

/-- The qualified name that a written name stands for. -/
def resolveName? (s : TypeScope) (name : String) : Option String :=
  if name.toList.contains '.' then (if s.table.contains name then some name else none)
  else if name = s.ownName ∨ name ∈ Builtin.all then some name
  else
    match s.imported? name with
    | some qualified => some qualified
    | none => if s.table.contains name then some name else none

/-- The type that a written type stands for. -/
def resolve (s : TypeScope) (t : TypeName) : Except Diagnostic TypeRef :=
  match Primitive.ofKeyword? t.name with
  | some kind => .ok ((TypeRef.primitive kind).withDims t.dims)
  | none =>
    match s.resolveName? t.name with
    | some name => .ok ((TypeRef.named name).withDims t.dims)
    | none => .error ⟨.unknownClass t.name, t.span⟩

/-- The type, or `Object` and the diagnostic. -/
def resolveOr (s : TypeScope) (t : TypeName) : TypeRef × List Diagnostic :=
  match s.resolve t with
  | .ok type => (type, [])
  | .error d => (.object, [d])

def resolveAll (s : TypeScope) (ts : List TypeName) : List TypeRef × List Diagnostic :=
  ((ts.map s.resolveOr).map (·.1), (ts.map s.resolveOr).flatMap (·.2))

end TypeScope

end Classwright.Check

import Classwright.Check.Body
import Classwright.Source.Declaration

/-!
# Compiling classes

`compileUnit` checks a syntax tree and gives the compiled class, or everything that is wrong with it
in the order of the source. `compileSource` starts from a text; only the first of reading tokens,
parsing and checking that finds errors reports them.
-/

namespace Classwright.Check

open Source (CompilationUnit Literal)

mutual

/-- Whether control may reach the end of the statement. -/
def completes : Source.Stmt → Bool
  | .ret _ _ => false
  | .throw _ _ => false
  | .block body _ => allComplete body
  | .ifElse _ t e _ => completes t || completes e
  | .loop (.literal (.bool true) _) _ _ => false
  | _ => true

def allComplete : List Source.Stmt → Bool
  | [] => true
  | s :: ss => completes s && allComplete ss

end

/-- Runs a lowering for a body of its own; the diagnostics come with the result. -/
def lowerBody {α : Type} (body : Lower α) : α × BodyState := body.run {}

/-- A compiled member. -/
inductive CompiledMember
  | field (isStatic : Bool) (code : Code.Field)
  | constructor (code : Code.Constructor)
  | method (code : Code.Method)

namespace CompiledMember

def instanceField? : CompiledMember → Option Code.Field
  | field false code => some code
  | _ => none

def staticField? : CompiledMember → Option Code.Field
  | field true code => some code
  | _ => none

def constructor? : CompiledMember → Option Code.Constructor
  | constructor code => some code
  | _ => none

def method? : CompiledMember → Option Code.Method
  | method code => some code
  | _ => none

end CompiledMember

def compileField (cx : ClassContext) (decl : Source.FieldDecl) (info : FieldInfo) :
    Code.Field × List Diagnostic :=
  let kind := if info.isStatic then BodyKind.staticInit else .instanceInit
  let code (init : Option Code.Expr) : Code.Field :=
    ⟨info.name, info.type, info.visibility, info.isFinal, init⟩
  match decl.init with
  | none => (code none, [])
  | some e =>
    let (init, s) := lowerBody (lowerAs cx kind e info.type)
    (code (some init), s.diagnostics)

def compileMethod (cx : ClassContext) (decl : Source.MethodDecl) (info : OwnedMethod) :
    Code.Method × List Diagnostic :=
  let m := info.method
  let (body, s) := lowerBody do
    declareParams decl.params m.params
    Lower.inScope (lowerStmts cx (.method m.returnType) decl.body.statements)
  (⟨m.name, m.params, m.returnType, m.throws, m.visibility, s.nextSlot, body⟩,
    s.diagnostics
      ++ reportIf (!m.returnType.isVoid && allComplete decl.body.statements) .missingReturn
        decl.body.span)

def compileConstructor (cx : ClassContext) (decl : Source.ConstructorDecl) (params : List TypeRef) :
    Code.Constructor × List Diagnostic :=
  let (body, s) := lowerBody do
    declareParams decl.params params
    Lower.inScope (lowerStmts cx .constructor decl.body.statements)
  (⟨params, decl.modifiers.effective, s.nextSlot, body⟩,
    reportIf (decl.name != cx.name) .misnamedConstructor decl.span ++ s.diagnostics)

def compileMember (cx : ClassContext) : DeclaredMember → CompiledMember × List Diagnostic
  | .field decl info =>
    let (code, ds) := compileField cx decl info
    (.field info.isStatic code, ds)
  | .method decl info =>
    let (code, ds) := compileMethod cx decl info
    (.method code, ds)
  | .constructor decl params =>
    let (code, ds) := compileConstructor cx decl params
    (.constructor code, ds)

/-- The compiled class. Without a declared constructor it has one without parameters that can be
seen as far as the class. -/
def assemble (cx : ClassContext) (visibility : Visibility) (members : List CompiledMember) :
    Code.Class :=
  let constructors := members.filterMap (·.constructor?)
  { version := Code.formatVersion
    name := cx.name
    superclass := cx.superclass
    interfaces := cx.interfaces
    fields := members.filterMap (·.instanceField?)
    statics := members.filterMap (·.staticField?)
    constructors := if constructors.isEmpty then [⟨[], visibility, 0, []⟩] else constructors
    methods := members.filterMap (·.method?) }

/-- Checks a source unit against the declared types and compiles it. -/
def compileUnit (table : TypeTable) (unit : CompilationUnit) :
    Except (List Diagnostic) Code.Class :=
  let decl := unit.decl
  let (scope, importErrors) := TypeScope.ofImports table decl.name unit.imports
  let (cx, declarationErrors) := ClassContext.declare scope decl
  let compiled := cx.members.map (compileMember cx)
  match importErrors ++ declarationErrors ++ cx.checkInheritance decl.span
      ++ compiled.flatMap (·.2) with
  | [] => .ok (assemble cx decl.modifiers.effective (compiled.map (·.1)))
  | ds => .error (ds.mergeSort Diagnostic.notAfter)

end Classwright.Check

namespace Classwright

/-- Why a source text has no compiled class. -/
inductive CompileError
  | tokens (errors : List LexError)
  | grammar (errors : List Source.SyntaxError)
  | check (errors : List Check.Diagnostic)

/-- The errors as they are shown, each with what the source has there. -/
def CompileError.reports (source : String) : CompileError → List String
  | tokens errors => errors.map (·.report source)
  | grammar errors => errors.map fun e =>
    e.report ++ (match e.suggestion with
      | none => ""
      | some s => "\n  = help: " ++ s.text)
  | check errors => errors.map (·.report source)

/-- Compiles a source text against the declared types. -/
def compileSource (table : TypeTable) (source : String) : Except CompileError Code.Class := do
  let tokens ← (Source.scan source).mapError .tokens
  let unit ← (Source.parse tokens).mapError .grammar
  (Check.compileUnit table unit).mapError .check

end Classwright

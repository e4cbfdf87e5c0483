import Classwright.Source.Statement

/-!
# Reading classes

A malformed import or member is reported and passed over, so that one reading finds as many
errors as possible. A member is passed over from its start to the semicolon or the balanced braces
that end it.
-/

namespace Classwright.Source

/-- The tokens behind a declaration: through the first semicolon outside braces, or through the
brace that closes the first one opened, or up to a closing brace that none of them opened. `last`
is the stretch of the token before. -/
def skipDeclaration (last : Span) : Nat → List Lexeme → Span × List Lexeme
  | _, [] => (last, [])
  | depth, l :: ts =>
    match l.token, depth with
    | .symbol .leftBrace, _ => skipDeclaration l.span (depth + 1) ts
    | .symbol .rightBrace, 0 => (last, l :: ts)
    | .symbol .rightBrace, 1 => (l.span, ts)
    | .symbol .rightBrace, depth + 2 => skipDeclaration l.span (depth + 1) ts
    | .symbol .semicolon, 0 => (l.span, ts)
    | _, _ => skipDeclaration l.span depth ts

theorem skipDeclaration_length (last : Span) (depth : Nat) (ts : List Lexeme) :
    (skipDeclaration last depth ts).2.length ≤ ts.length := by
  fun_induction skipDeclaration last depth ts <;> simp_all <;> omega

/-- Only a closing brace stops it before it has passed a token. -/
theorem skipDeclaration_length_lt {l : Lexeme} (h : l.token ≠ .symbol .rightBrace) (last : Span)
    (depth : Nat) (ts : List Lexeme) :
    (skipDeclaration last depth (l :: ts)).2.length < (l :: ts).length := by
  unfold skipDeclaration
  split <;> first
    | exact Nat.lt_succ_of_le (skipDeclaration_length ..)
    | simp_all

namespace Cursor

def passDeclaration (c : Cursor) : Cursor :=
  let (last, rest) := skipDeclaration c.previous 0 c.rest
  ⟨rest, c.finish, last⟩

theorem passDeclaration_remaining (c : Cursor) : c.passDeclaration.remaining ≤ c.remaining :=
  skipDeclaration_length c.previous 0 c.rest

/-- Whether a modifier was given, and what it sets. -/
def applyModifier (m : Modifiers) (k : Keyword) : Option (Except SyntaxCause Modifiers) :=
  let show_ (v : Visibility) : Except SyntaxCause Modifiers :=
    if m.visibility.isSome then .error .repeatedVisibility
    else .ok { m with visibility := some v }
  match k with
  | .public_ => some (show_ .visible)
  | .protected_ => some (show_ .shielded)
  | .private_ => some (show_ .hidden)
  | .static => some (.ok { m with isStatic := true })
  | .final => some (.ok { m with isFinal := true })
  | _ => none

/-- Reads modifiers on top of those in `m`. -/
def modifiersFrom (m : Modifiers) (c : Cursor) : Step Modifiers (c.remaining + 1) :=
  match h : c.rest with
  | ⟨.keyword k, span⟩ :: rest =>
    have := past_lt h
    match applyModifier m k with
    | none => .stay m c
    | some (.error cause) => .error ⟨cause, span, none⟩ (c.past ⟨.keyword k, span⟩ rest)
    | some (.ok m') => ((modifiersFrom m' (c.past ⟨.keyword k, span⟩ rest)).behindMaybe h).loosen
  | _ => .stay m c
termination_by c.remaining

def modifiers (c : Cursor) : Step Modifiers (c.remaining + 1) := modifiersFrom {} c

/-- Reads types with commas between them. -/
def typeList (c : Cursor) : Step (List TypeName) c.remaining :=
  c.typeName.andMaybe fun type d _ =>
    match h : d.rest with
    | [] => .stay [type] d
    | sign :: rest =>
      if sign.token = .symbol .comma then
        have := rest_lt h
        let types := (typeList (d.past sign rest)).map fun types => type :: types
        (types.behind h).loosen
      else .stay [type] d
termination_by c.remaining
decreasing_by simp only [remaining, past] at *; omega

/-- Reads the types behind a keyword, if the keyword is there. -/
def typesAfter (k : Keyword) (c : Cursor) : Step (List TypeName) (c.remaining + 1) :=
  (c.eat (.keyword k)).andMaybe fun found d _ =>
    if found then d.typeList.loosen else .stay [] d

/-- Reads a parameter, those after it and the closing parenthesis. -/
def paramTail (c : Cursor) : Step (List Param) c.remaining :=
  c.typeName.andThen fun type d _ =>
    d.expectIdentifier.andThen fun (name, nameSpan) e _ =>
      let param : Param := ⟨type, name, type.span.through nameSpan⟩
      match h : e.rest with
      | [] => .error (e.unexpected [.symbol .rightParen]) e
      | sign :: rest =>
        if sign.token = .symbol .comma then
          have := rest_lt h
          ((paramTail (e.past sign rest)).map fun params => param :: params).behind h
        else (e.expectSymbol .rightParen).map fun _ => [param]
termination_by c.remaining
decreasing_by simp only [remaining, past] at *; omega

/-- Reads parameters in parentheses. -/
def params (c : Cursor) : Step (List Param) c.remaining :=
  (c.expectSymbol .leftParen).andThen fun _ d _ =>
    if d.atSymbol .rightParen then (d.expectSymbol .rightParen).map fun _ => []
    else d.paramTail

/-- Whether a constructor of the class comes next: the name of the class and a parenthesis. -/
def opensConstructor (className : String) (c : Cursor) : Bool :=
  c.current? == some (.identifier className) && c.next? == some (.symbol .leftParen)

/-- Reads a return type; `void` is none. -/
def returnType (c : Cursor) : Step (Option TypeName) c.remaining :=
  match h : c.rest with
  | ⟨.keyword .void, span⟩ :: rest =>
    .ok none (c.past ⟨.keyword .void, span⟩ rest) (past_lt h)
  | _ => c.typeName.map some

/-- Reads a member of the class. -/
def member (className : String) (c : Cursor) : Step Member c.remaining :=
  c.modifiers.maybeThen fun modifiers d _ =>
    if d.opensConstructor className then
      d.expectIdentifier.andThen fun (name, _) e _ =>
        e.params.andThen fun params f _ =>
          f.block.map fun body =>
            .constructor ⟨modifiers, name, params, body, c.span.through body.span⟩
    else
      d.returnType.andThen fun type e _ =>
        e.expectIdentifier.andThen fun (name, nameSpan) f _ =>
          if f.atSymbol .leftParen then
            f.params.andThen fun params g _ =>
              (g.typesAfter .throws).maybeThen fun throws i _ =>
                i.block.map fun body =>
                  .method ⟨modifiers, type, name, params, throws, body, c.span.through body.span⟩
          else
            match type with
            | none => .error ⟨.voidField name, nameSpan, none⟩ f
            | some type =>
              f.initializer.maybeThen fun init g _ =>
                (g.expectSymbol .semicolon).mapAt fun _ i =>
                  .field ⟨modifiers, type, name, init, c.span.through i.previous⟩

/-- Reads members up to a closing brace, which stays, or the end. -/
def members (className : String) (c : Cursor) : List Member × List SyntaxError × Cursor :=
  match h : c.rest with
  | [] => ([], [], c)
  | first :: rest =>
    if hf : first.token = .symbol .rightBrace then ([], [], c)
    else
      match member className c with
      | .ok m d _ =>
        let (ms, es, last) := members className d
        (m :: ms, es, last)
      | .error e _ =>
        have : c.passDeclaration.remaining < c.remaining := by
          simpa [remaining, passDeclaration, h] using
            skipDeclaration_length_lt hf c.previous 0 rest
        let (ms, es, last) := members className c.passDeclaration
        (ms, e :: es, last)
termination_by c.remaining

theorem members_remaining (className : String) (c : Cursor) :
    (members className c).2.2.remaining ≤ c.remaining := by
  fun_induction members className c <;> simp_all <;> omega

/-- What stands before the members of a class. -/
structure Header where
  modifiers : Modifiers
  name : String
  superclass : Option TypeName
  interfaces : List TypeName

/-- Reads the type that a class extends, if one is named. -/
def extended (c : Cursor) : Step (Option TypeName) (c.remaining + 1) :=
  (c.eat (.keyword .extends_)).andMaybe fun found d _ =>
    if found then (d.typeName.map some).loosen else .stay none d

/-- Reads a class up to the opening brace. -/
def header (c : Cursor) : Step Header c.remaining :=
  c.modifiers.maybeThen fun modifiers d _ =>
    (d.expectKeyword .class_).andThen fun _ e _ =>
      e.expectIdentifier.andThen fun (name, _) f _ =>
        f.extended.maybeThen fun superclass g _ =>
          (g.typesAfter .implements).maybeThen fun interfaces i _ =>
            (i.expectSymbol .leftBrace).map fun _ => ⟨modifiers, name, superclass, interfaces⟩

/-- Reads a class; the errors of its members come apart from its own. -/
def classDecl (c : Cursor) : List SyntaxError × Step ClassDecl c.remaining :=
  match c.header with
  | .error e d => ([], .error e d)
  | .ok head d hd =>
    let body := members head.name d
    have hb : body.2.2.remaining ≤ d.remaining := members_remaining head.name d
    let decl := (body.2.2.expectSymbol .rightBrace).mapAt fun _ e =>
      ClassDecl.mk head.modifiers head.name head.superclass head.interfaces body.1
        (c.span.through e.previous)
    (body.2.1, decl.upTo (Nat.le_of_lt (Nat.lt_of_le_of_lt hb hd)))

/-- Reads an import behind its keyword. Whether or not it is well formed, the cursor where reading
stopped comes with it. -/
def importPath (start : Span) (c : Cursor) : Except SyntaxError Import × Cursor :=
  match c.qualifiedName with
  | .error e _ => (.error e, c)
  | .ok (path, _) d _ =>
    match d.expectSymbol .semicolon with
    | .error e _ => (.error e, d)
    | .ok _ e _ => (.ok ⟨path, start.through e.previous⟩, e)

theorem importPath_remaining (start : Span) (c : Cursor) :
    (importPath start c).2.remaining ≤ c.remaining := by
  unfold importPath
  split
  · simp
  · split <;> simp <;> omega

/-- Reads imports. -/
def imports (c : Cursor) : List Import × List SyntaxError × Cursor :=
  match h : c.rest with
  | ⟨.keyword .import_, span⟩ :: rest =>
    have hrest := past_lt h
    let next := c.past ⟨.keyword .import_, span⟩ rest
    have hi : (importPath span next).2.remaining ≤ next.remaining := importPath_remaining span next
    match importPath span next, hi with
    | (.ok i, d), hi =>
      have : d.remaining < c.remaining := Nat.lt_of_le_of_lt hi hrest
      let (is, es, last) := imports d
      (i :: is, es, last)
    | (.error e, d), hi =>
      have : d.passDeclaration.remaining < c.remaining :=
        Nat.lt_of_le_of_lt d.passDeclaration_remaining (Nat.lt_of_le_of_lt hi hrest)
      let (is, es, last) := imports d.passDeclaration
      (is, e :: es, last)
  | _ => ([], [], c)
termination_by c.remaining

end Cursor

/-- The syntax tree of a source, or every error found in it. -/
def parse (l : Lexed) : Except (List SyntaxError) CompilationUnit :=
  let (imports, importErrors, c) := (Cursor.ofLexed l).imports
  match c.classDecl with
  | (memberErrors, .error e _) => .error (importErrors ++ memberErrors ++ [e])
  | (memberErrors, .ok decl d _) =>
    let trailing := if d.rest.isEmpty then [] else [⟨.secondClass, d.span, none⟩]
    match importErrors ++ memberErrors ++ trailing with
    | [] => .ok ⟨imports, decl⟩
    | errors => .error errors

end Classwright.Source

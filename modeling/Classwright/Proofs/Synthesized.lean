import Classwright.Proofs.Spelling

/-!
# Tokens of synthesized sources

A synthesized source is scanned as the tokens of its parts in order: of the imports, of the header,
of the members in the class body, of the constructor and of the methods. The fragments that the
hooks give may hold comments, blank lines and white space of any kind; none of it leaks into what
surrounds them.
-/

namespace Classwright

open Source Synthesis

/-- A method whose name and exceptions are legal and whose types can be written. -/
def Method.isWritable (m : Method) : Bool :=
  isName m.name && (decide (m.returnType = .void) || Source.isWritable m.returnType)
    && m.params.all Source.isWritable && m.throws.all isQualifiedName

/-- Every name that goes into the source is legal. -/
structure Synthesis.Legal (hooks : Hooks) (contract : Descriptor) (className : String) : Prop where
  name : isQualifiedName contract.name = true
  ownName : isName className = true
  imports : ∀ i ∈ hooks.imports contract, isQualifiedName i = true
  superclass : ∀ s ∈ hooks.superclass contract, isQualifiedName s.name = true
  interfaces : ∀ i ∈ hooks.interfaces contract, isQualifiedName i.name = true
  methods : ∀ m ∈ contract.abstractMethods, m.isWritable = true

namespace Synthesis

/-! ### The tokens that are written -/

def importTokens (path : String) : List Token :=
  .keyword .import_ :: nameTokens path ++ [.symbol .semicolon]

/-- A keyword and a list of names, if there are names. -/
def listTokens (k : Keyword) (names : List String) : List Token :=
  if names.isEmpty then [] else .keyword k :: commaTokens (names.map nameTokens)

def extendsTokens : Option String → List Token
  | none => []
  | some s => .keyword .extends_ :: nameTokens s

def headerTokens (className : String) (superclass : Option String) (interfaces : List String) :
    List Token :=
  .keyword .public_ :: .keyword .class_ :: .identifier className
    :: (extendsTokens superclass ++ (listTokens .implements interfaces ++ [.symbol .leftBrace]))

def paramTokens (i : Nat) (t : TypeRef) : List Token :=
  typeTokens t ++ [.identifier (paramName i)]

def visibilityKeyword (m : Method) : Keyword :=
  if m.visibility = .shielded then .protected_ else .public_

def methodTokens (m : Method) : List Token :=
  .keyword (visibilityKeyword m) :: (typeTokens m.returnType ++ .identifier m.name
    :: .symbol .leftParen :: (commaTokens (m.params.mapIdx paramTokens)
      ++ .symbol .rightParen :: listTokens .throws m.throws))

def constructorTokens (className : String) : List Token :=
  [.keyword .public_, .identifier className, .symbol .leftParen, .symbol .rightParen]

def bodiedTokens (head body : List Token) : List Token :=
  head ++ .symbol .leftBrace :: (body ++ [.symbol .rightBrace])

section

variable {text : String} {ts : List Token}

theorem spellsBefore_keywordNames (k : Keyword) {names : List String} (some_ : names ≠ [])
    (legal : ∀ n ∈ names, isQualifiedName n = true) :
    SpellsBefore (" " ++ k.text ++ " " ++ String.intercalate ", " names).toList
      (listTokens k names) := by
  intro sep b us stop h
  have items := spellsBefore_list (names.map fun n => (n, nameTokens n)) (by
    intro i member
    obtain ⟨n, there, rfl⟩ := List.mem_map.1 member
    exact spellsBefore_qualified (legal n there)) stop h
  rw [List.map_map, List.map_map] at items
  have same : (fun i : String × List Token => i.1) ∘ (fun n => (n, nameTokens n)) = id := rfl
  rw [same, List.map_id] at items
  have word := spellsBefore_keyword k (by decide) (Spells.layout (c := ' ') rfl items)
  have whole := Spells.layout (c := ' ') rfl word
  rw [listTokens, if_neg (by simpa using some_)]
  simp only [String.toList_append, List.append_assoc]
  exact whole

/-- A list of names behind its keyword, which is left out without names. -/
theorem spells_names {k : Keyword} {names : List String}
    (legal : ∀ n ∈ names, isQualifiedName n = true) {sep : Char} {b : List Char} {us : List Token}
    (stop : isNamePart sep = false) (h : Spells (sep :: b) us) :
    ∃ sep' b', (if names.isEmpty then ""
        else " " ++ k.text ++ " " ++ String.intercalate ", " names).toList ++ sep :: b
          = sep' :: b' ∧
      isNamePart sep' = false ∧ Spells (sep' :: b') (listTokens k names ++ us) := by
  cases names with
  | nil => exact ⟨sep, b, rfl, stop, h⟩
  | cons n names =>
    have whole := spellsBefore_keywordNames k (List.cons_ne_nil n names) legal stop h
    rw [List.isEmpty_cons, if_neg Bool.false_ne_true]
    simp only [String.toList_append, List.append_assoc] at whole ⊢
    exact ⟨' ', _, rfl, by decide, whole⟩

theorem spells_import {path : String} (legal : isQualifiedName path = true) :
    Spells ("import " ++ path ++ ";\n").toList (importTokens path) := by
  have close : Spells (';' :: '\n' :: []) [.symbol .semicolon] :=
    (Spells.layout (c := '\n') rfl .nil).sign rfl
  have name := spellsBefore_qualified legal (by decide) close
  have word := spellsBefore_keyword .import_ (by decide) (Spells.layout (c := ' ') rfl name)
  simp only [String.toList_append, List.append_assoc]
  exact word

theorem spells_imports {paths : List String} (legal : ∀ p ∈ paths, isQualifiedName p = true) :
    Spells (importLines paths).toList (paths.flatMap importTokens) := by
  have each : ∀ {paths : List String}, (∀ p ∈ paths, isQualifiedName p = true) →
      Spells (String.join (paths.map fun i => "import " ++ i ++ ";\n")).toList
        (paths.flatMap importTokens) := by
    intro paths legal
    rw [String.toList_join]
    induction paths with
    | nil => exact .nil
    | cons path paths ih =>
      rw [List.map_cons, List.flatMap_cons, List.flatMap_cons]
      exact (spells_import (legal path (by simp))).append
        (ih fun p member => legal p (List.mem_cons_of_mem _ member))
  unfold importLines
  split
  · rename_i none_
    rw [List.isEmpty_iff.1 none_]
    exact .nil
  · rw [String.toList_append]
    have lines := (each legal).append (Spells.layout (c := '\n') rfl .nil)
    rwa [List.append_nil] at lines

theorem spells_header {className : String} {superclass : Option String} {interfaces : List String}
    (legal : isName className = true)
    (legalSuper : ∀ s ∈ superclass.filter (· != Builtin.object), isQualifiedName s = true)
    (legalInterfaces : ∀ i ∈ interfaces, isQualifiedName i = true) :
    Spells (header className superclass interfaces).toList
      (headerTokens className (superclass.filter (· != Builtin.object)) interfaces) := by
  have open_ : Spells (' ' :: '\x7b' :: '\n' :: []) [.symbol .leftBrace] :=
    .layout rfl ((Spells.layout (c := '\n') rfl .nil).sign rfl)
  obtain ⟨sep, b, same, stop, tail⟩ :=
    spells_names (k := .implements) legalInterfaces (by decide) open_
  unfold header headerTokens
  have name : Spells (className.toList ++
      ((match superclass.filter (· != Builtin.object) with
        | none => ""
        | some s => " extends " ++ s).toList ++ sep :: b))
      (.identifier className :: (extendsTokens (superclass.filter (· != Builtin.object))
        ++ (listTokens .implements interfaces ++ [.symbol .leftBrace]))) := by
    cases parent : superclass.filter (· != Builtin.object) with
    | none => exact spellsBefore_name legal stop tail
    | some s =>
      have path := spellsBefore_qualified (legalSuper s (by rw [parent]; rfl)) stop tail
      have word := spellsBefore_keyword .extends_ (by decide) (Spells.layout (c := ' ') rfl path)
      have whole := spellsBefore_name legal (by decide) (Spells.layout (c := ' ') rfl word)
      simp only [String.toList_append, List.append_assoc]
      exact whole
  have class_ := spellsBefore_keyword .class_ (by decide) (Spells.layout (c := ' ') rfl name)
  have public_ := spellsBefore_keyword .public_ (by decide) (Spells.layout (c := ' ') rfl class_)
  rw [← same] at public_
  simp only [String.toList_append, List.append_assoc] at public_ ⊢
  exact public_

theorem isWritable_spec {m : Method} (legal : m.isWritable = true) :
    isName m.name = true ∧ (m.returnType = .void ∨ Source.isWritable m.returnType = true) ∧
      (∀ t ∈ m.params, Source.isWritable t = true) ∧
      ∀ e ∈ m.throws, isQualifiedName e = true := by
  simp only [Method.isWritable, Bool.and_eq_true, Bool.or_eq_true, decide_eq_true_eq,
    List.all_eq_true] at legal
  obtain ⟨⟨⟨name, type⟩, params⟩, throws⟩ := legal
  exact ⟨name, type, params, throws⟩

theorem spellsBefore_params {params : List TypeRef}
    (legal : ∀ t ∈ params, Source.isWritable t = true) :
    SpellsBefore (paramList params).toList (commaTokens (params.mapIdx paramTokens)) := by
  have items := spellsBefore_list (params.mapIdx fun i t =>
      (t.canonicalName ++ " " ++ paramName i, paramTokens i t)) (by
    intro item member
    obtain ⟨i, inside, rfl⟩ := List.mem_mapIdx.1 member
    intro sep b us stop h
    have name := spellsBefore_name (isName_paramName i) stop h
    have whole := spellsBefore_type (legal _ (List.getElem_mem inside)) (by decide)
      (Spells.layout (c := ' ') rfl name)
    simp only [String.toList_append, List.append_assoc, paramTokens]
    exact whole)
  rw [List.mapIdx_eq_zipIdx_map, List.map_map, List.map_map] at items
  rw [paramList, List.mapIdx_eq_zipIdx_map, List.mapIdx_eq_zipIdx_map]
  exact items

theorem spellsBefore_methodHeader {m : Method} (legal : m.isWritable = true) :
    SpellsBefore (methodHeader m).toList (methodTokens m) := by
  obtain ⟨name, type, params, throws⟩ := isWritable_spec legal
  intro sep b us stop h
  obtain ⟨sep', b', same, stop', tail⟩ := spells_names (k := .throws) throws stop h
  have list := spellsBefore_params params (by decide) (tail.sign (c := ')') rfl)
  have named := spellsBefore_name name (by decide) (list.sign (c := '(') rfl)
  have typed := spellsBefore_returnType type (by decide) (Spells.layout (c := ' ') rfl named)
  have whole := spellsBefore_keyword (visibilityKeyword m) (by decide)
    (Spells.layout (c := ' ') rfl typed)
  have visibility : (visibilityKeyword m).text.toList ++ [' ']
      = (if m.visibility = .shielded then "protected " else "public ").toList := by
    unfold visibilityKeyword
    split <;> rfl
  rw [← same] at whole
  unfold methodHeader
  simp only [String.toList_append, List.append_assoc, methodTokens, ← visibility,
    List.cons_append] at whole ⊢
  exact whole

theorem spellsBefore_constructorHeader {className : String} (legal : isName className = true) :
    SpellsBefore ("public " ++ className ++ "()").toList (constructorTokens className) := by
  intro sep b us _ h
  have close := (h.sign (c := ')') rfl).sign (c := '(') rfl
  have named := spellsBefore_name legal (by decide) close
  have whole := spellsBefore_keyword .public_ (by decide) (Spells.layout (c := ' ') rfl named)
  simp only [String.toList_append, List.append_assoc]
  exact whole

theorem spells_bodied {head body : String} {headTokens bodyTokens : List Token}
    (spelled : SpellsBefore head.toList headTokens) (read : words? body.toList = some bodyTokens) :
    Spells (bodied head body).toList (bodiedTokens headTokens bodyTokens) := by
  have spaces : ∀ {text : List Char} {ts : List Token}, Spells text ts →
      Spells (' ' :: ' ' :: ' ' :: ' ' :: text) ts := fun h =>
    .layout rfl (.layout rfl (.layout rfl (.layout rfl h)))
  have close := spaces ((Spells.layout (c := '\n') rfl .nil).sign (c := '\x7d') rfl)
  have inner := (spells_indent 2 read).append close
  have open_ := (Spells.layout (c := '\n') rfl inner).sign (c := '\x7b') rfl
  have whole := spaces (spelled (by decide) (Spells.layout (c := ' ') rfl open_))
  have margin : "    ".toList = [' ', ' ', ' ', ' '] := rfl
  have opened : " \x7b\n".toList = [' ', '\x7b', '\n'] := rfl
  have closed : "    \x7d\n".toList = [' ', ' ', ' ', ' ', '\x7d', '\n'] := rfl
  unfold bodied bodiedTokens
  simp only [String.toList_append, List.append_assoc, margin, opened, closed, List.cons_append,
    List.nil_append] at whole ⊢
  exact whole

/-- Only tokens are no white space. -/
theorem words?_blank_nil {cs : List Char} {ts : List Token} (blank : cs.all Text.isBlank = true)
    (read : words? cs = some ts) : ts = [] := by
  have scans := scans_of_words? read
  induction scans with
  | nil => rfl
  | layout _ scans ih =>
    rw [List.all_cons, Bool.and_eq_true] at blank
    exact ih blank.2 scans.words?
  | line _ _ => exact absurd (List.all_eq_true.1 blank '/' (by simp)) (by decide)
  | block _ _ _ => exact absurd (List.all_eq_true.1 blank '/' (by simp)) (by decide)
  | @token c cs n t ts piece _ _ =>
    obtain ⟨_, solid, _⟩ := pieceAt_token piece
    rw [List.all_cons, Bool.and_eq_true, solid] at blank
    cases blank.1

theorem trim_isEmpty {cs : List Char} (h : (Text.trim cs).isEmpty = true) :
    cs.all Text.isBlank = true := by
  rw [Text.trim, List.isEmpty_reverse, List.isEmpty_iff, List.dropWhile_eq_nil_iff] at h
  have left : ∀ c ∈ cs.dropWhile Text.isBlank, Text.isBlank c = true := fun c member =>
    h c (List.mem_reverse.2 member)
  have none_ : cs.dropWhile Text.isBlank = [] := by
    cases rest : cs.dropWhile Text.isBlank with
    | nil => rfl
    | cons c more =>
      have never := List.head?_dropWhile_not Text.isBlank cs
      rw [rest] at never left
      exact absurd (left c (by simp)) (by rw [show Text.isBlank c = false from never]; decide)
  exact List.all_eq_true.2 (List.dropWhile_eq_nil_iff.1 none_)

/-- The tokens of the members, when these are the tokens of the fragments. -/
def memberTokens (hooks : Hooks) (contract : Descriptor) (className : String) (own : List Token)
    (init : List Token) (bodies : Method → List Token) : List Token :=
  own ++ ((hooks.constructorBody contract).toList.flatMap fun _ =>
      bodiedTokens (constructorTokens className) init)
    ++ contract.abstractMethods.flatMap fun m => bodiedTokens (methodTokens m) (bodies m)

theorem spells_members {hooks : Hooks} {contract : Descriptor} {className : String}
    {own init : List Token} {bodies : Method → List Token} (legal : Legal hooks contract className)
    (ownRead : words? ((hooks.classBody contract).getD "").toList = some own)
    (initRead : ∀ text ∈ hooks.constructorBody contract, words? text.toList = some init)
    (bodiesRead : ∀ m ∈ contract.abstractMethods,
      words? ((hooks.methodBody contract m).getD "").toList = some (bodies m)) :
    Spells (members hooks contract className).toList
      (memberTokens hooks contract className own init bodies) := by
  let kept := (hooks.classBody contract).filter fun b => !(Text.trim b.toList).isEmpty
  have body : own = (kept.toList.map fun b => (indent 1 b, own)).flatMap (·.2) ∧
      ∀ b ∈ kept, words? b.toList = some own := by
    cases given : hooks.classBody contract with
    | none =>
      rw [given] at ownRead
      have none_ : own = [] := words?_blank_nil rfl ownRead
      simp [kept, given, none_]
    | some b =>
      rw [given] at ownRead
      cases blank : (Text.trim b.toList).isEmpty with
      | true =>
        have none_ : own = [] := words?_blank_nil (trim_isEmpty blank) ownRead
        have drops : kept = none := by
          simp only [kept, given, Option.filter_some, blank]
          rfl
        rw [drops]
        exact ⟨none_, fun b' same => nomatch same⟩
      | false =>
        have keeps : kept = some b := by
          simp only [kept, given, Option.filter_some, blank]
          rfl
        rw [keeps]
        exact ⟨by simp, fun b' same => by cases same; exact ownRead⟩
  have whole := spells_lines ((kept.toList.map fun b => (indent 1 b, own))
      ++ ((hooks.constructorBody contract).toList.map fun text =>
        (bodied ("public " ++ className ++ "()") text,
          bodiedTokens (constructorTokens className) init))
      ++ contract.abstractMethods.map fun m =>
        (bodied (methodHeader m) ((hooks.methodBody contract m).getD ""),
          bodiedTokens (methodTokens m) (bodies m))) (by
    intro item member
    rw [List.mem_append, List.mem_append] at member
    rcases member with (member | member) | member
    · obtain ⟨b, there, rfl⟩ := List.mem_map.1 member
      exact spells_indent 1 (body.2 b (Option.mem_toList.1 there))
    · obtain ⟨text, there, rfl⟩ := List.mem_map.1 member
      exact spells_bodied (spellsBefore_constructorHeader legal.ownName)
        (initRead text (Option.mem_toList.1 there))
    · obtain ⟨m, there, rfl⟩ := List.mem_map.1 member
      exact spells_bodied (spellsBefore_methodHeader (legal.methods m there))
        (bodiesRead m there))
  rw [List.flatMap_append, List.flatMap_append, ← body.1, List.flatMap_map, List.flatMap_map]
    at whole
  rw [List.map_append, List.map_append, List.map_map, List.map_map, List.map_map] at whole
  unfold members memberTokens
  simp only [Option.toList_map]
  exact whole

end

end Synthesis

end Classwright

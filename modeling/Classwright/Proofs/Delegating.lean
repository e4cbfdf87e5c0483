import Classwright.Proofs.Rereading
import Classwright.Generation.Proxy

/-!
# The source of a delegating class

What the delegating hooks write is read as fields for the handler, the interface and the method
descriptors, and as methods of one statement each, which calls the handler.
-/

namespace Classwright

open Source Synthesis

/-! ### Names -/

theorem isNamePart_digest (message : List UInt8) :
    (Sha256.digest message).all isNamePart = true := by
  have digit : ∀ n < 16, isNamePart (Nat.digitChar n) = true := by decide
  have byte : ∀ b : UInt8, (Sha256.hexByte b).all isNamePart = true := by
    intro b
    have small := b.toNat_lt
    simp only [Sha256.hexByte, List.all_cons, List.all_nil, Bool.and_true, Bool.and_eq_true]
    exact ⟨digit _ (by omega), digit _ (Nat.mod_lt _ (by decide))⟩
  simp only [Sha256.digest, List.all_flatMap, List.all_eq_true]
  intro w _ shift _ c member
  exact List.all_eq_true.1 (byte _) c member

theorem isName_classNameFor (contract : String) : isName (classNameFor contract) = true := by
  have chars : (classNameFor contract).toList
      = 'R' :: 't' :: 'c' :: (Sha256.digest contract.toUTF8.toList).take hashDigits := by
    rw [classNameFor, String.toList_append]
    exact congrArg _ String.toList_ofList
  have digits : ((Sha256.digest contract.toUTF8.toList).take hashDigits).all isNamePart = true :=
    List.all_eq_true.2 fun c member =>
      List.all_eq_true.1 (isNamePart_digest _) c (List.mem_of_mem_take member)
  refine isName_of_prefix ['R'] ?_ (by rw [chars]; rfl) (fun k => ?_) fun p => ?_
  · rw [chars, isWord]
    simp only [List.all_cons, digits]
    rfl
  · cases k <;> decide +kernel
  · cases p <;> decide +kernel

theorem all_of_isName {name : String} (legal : isName name = true) :
    name.toList.all isNamePart = true := by
  rw [isName, Bool.and_eq_true] at legal
  cases chars : name.toList with
  | nil => rfl
  | cons c cs =>
    have word := legal.1
    rw [chars, isWord, Bool.and_eq_true] at word
    rw [List.all_cons, word.2, isNamePart, word.1]
    rfl

namespace Delegation

/-- The field of a method has a legal name if the method has one. -/
theorem isName_methodField {m : Method} (legal : isName m.name = true)
    (methods earlier : List Method) : isName (methodField methods earlier m) = true := by
  have parts := all_of_isName legal
  obtain ⟨cs, chars, rest⟩ : ∃ cs, (methodField methods earlier m).toList
      = 'm' :: 'e' :: 't' :: 'h' :: 'o' :: 'd' :: '_' :: cs ∧ cs.all isNamePart = true := by
    unfold methodField
    dsimp only
    split
    · rw [String.toList_append]
      exact ⟨_, rfl, parts⟩
    · simp only [String.toList_append, List.append_assoc]
      refine ⟨m.name.toList ++ ("$".toList ++ (toString (earlier.countP _)).toList), rfl, ?_⟩
      rw [List.all_append, List.all_append, parts, toList_toString, isNamePart_digits]
      rfl
  refine isName_of_prefix ['m', 'e'] ?_ (by rw [chars]; rfl) (fun k => ?_) fun p => ?_
  · rw [chars, isWord]
    simp only [List.all_cons, rest]
    rfl
  · cases k <;> decide +kernel
  · cases p <;> decide +kernel

/-- Every name that goes into the source of a delegating class is legal. No parameter is `void`,
which is no name. -/
structure Legal (contract : Descriptor) : Prop where
  name : isQualifiedName contract.name = true
  names : ∀ m ∈ contract.methods, isName m.name = true
  methods : ∀ m ∈ contract.abstractMethods, m.isWritable = true

theorem methodFields_methods (contract : Descriptor) :
    (methodFields contract).map (·.2) = contract.methods := by
  have listed : ∀ methods earlier later, (fieldsFrom methods earlier later).map (·.2) = later := by
    intro methods earlier later
    induction later generalizing earlier with
    | nil => rfl
    | cons m later ih => rw [fieldsFrom, List.map_cons, ih]
  exact listed _ _ _

theorem methodField_of_mem {contract : Descriptor} {f : String × Method}
    (member : f ∈ methodFields contract) :
    ∃ earlier, f.1 = methodField contract.methods earlier f.2 := by
  have listed : ∀ methods earlier later, f ∈ fieldsFrom methods earlier later →
      ∃ earlier, f.1 = methodField methods earlier f.2 := by
    intro methods earlier later member
    induction later generalizing earlier with
    | nil => cases member
    | cons first later ih =>
      rcases List.mem_cons.1 member with rfl | member
      · exact ⟨_, rfl⟩
      · exact ih _ member
  exact listed _ _ _ member

theorem isName_of_mem_methodFields {contract : Descriptor} (legal : Legal contract)
    {f : String × Method} (member : f ∈ methodFields contract) : isName f.1 = true := by
  have declared : f.2 ∈ contract.methods := by
    rw [← methodFields_methods contract]
    exact List.mem_map_of_mem member
  obtain ⟨earlier, same⟩ := methodField_of_mem member
  rw [same]
  exact isName_methodField (legal.names _ declared) _ _

/-! ### Fields -/

/-- The fields of the class with the names of their types. -/
def fields (contract : Descriptor) : List (String × String) :=
  (handlerField, Builtin.handler) :: (interfaceField, Builtin.class_)
    :: (methodFields contract).map fun f => (f.1, Builtin.method)

def fieldTokens (f : String × String) : List Token :=
  [.keyword .private_, .identifier f.2, .identifier f.1, .symbol .semicolon]

/-- The declaration of a private field. -/
def fieldMember (f : String × String) : Member :=
  .field ⟨{ visibility := some .hidden }, named f.2, f.1, none, .blank⟩

/-- A field with a legal name, of a type whose name is one word. -/
structure Plain (f : String × String) : Prop where
  name : isName f.1 = true
  type : isName f.2 = true
  word : (named f.2).tokens = [.identifier f.2]

theorem plain_fields {contract : Descriptor} (legal : Legal contract) :
    ∀ f ∈ fields contract, Plain f := by
  have types : ∀ t ∈ [Builtin.handler, Builtin.class_, Builtin.method],
      isName t = true ∧ (named t).tokens = [.identifier t] := by
    decide +kernel
  have own : ∀ n ∈ [handlerField, interfaceField], isName n = true := by decide +kernel
  intro f member
  rcases List.mem_cons.1 member with rfl | member
  · exact ⟨own _ (by simp), (types _ (by simp)).1, (types _ (by simp)).2⟩
  · rcases List.mem_cons.1 member with rfl | member
    · exact ⟨own _ (by simp), (types _ (by simp)).1, (types _ (by simp)).2⟩
    · obtain ⟨given, there, rfl⟩ := List.mem_map.1 member
      exact ⟨isName_of_mem_methodFields legal there, (types _ (by simp)).1, (types _ (by simp)).2⟩

theorem spells_declaration {f : String × String} (plain : Plain f) :
    Spells (declaration f.2 f.1).toList (fieldTokens f) := by
  have close : Spells [';', '\n'] [.symbol .semicolon] :=
    (Spells.layout (c := '\n') rfl .nil).sign rfl
  have named := spellsBefore_name plain.name (by decide) close
  have typed := spellsBefore_name plain.type (by decide) (Spells.layout (c := ' ') rfl named)
  have whole := spellsBefore_keyword .private_ (by decide) (Spells.layout (c := ' ') rfl typed)
  unfold declaration
  simp only [String.toList_append, List.append_assoc]
  exact whole

theorem spells_classBody {contract : Descriptor} (legal : Legal contract) :
    Spells (classBody contract).toList ((fields contract).flatMap fieldTokens) := by
  have joined : ∀ fs : List (String × String), (∀ f ∈ fs, Plain f) →
      Spells (fs.flatMap fun f => (declaration f.2 f.1).toList) (fs.flatMap fieldTokens) := by
    intro fs plain
    induction fs with
    | nil => exact .nil
    | cons f fs ih =>
      exact (spells_declaration (plain f List.mem_cons_self)).append
        (ih fun f member => plain f (List.mem_cons_of_mem _ member))
  have text : (classBody contract).toList
      = (fields contract).flatMap fun f => (declaration f.2 f.1).toList := by
    unfold classBody fields
    simp only [String.toList_append, String.toList_join, List.flatMap_cons, List.flatMap_map,
      List.append_assoc]
  rw [text]
  exact joined _ (plain_fields legal)

theorem fieldMember_rendered (className : String) {f : String × String} (plain : Plain f) :
    (fieldMember f).Rendered className (fieldTokens f) := by
  have modifiers : Modifiers.Rendered { visibility := some .hidden } [.private_] :=
    ⟨by simp [isModifier, shownBy?], rfl, rfl, rfl⟩
  have rendered : (fieldMember f).Rendered className
      (keywordTokens [.private_]
        ++ ((named f.2).tokens ++ .identifier f.1 :: ([] ++ [.symbol .semicolon]))) :=
    .field modifiers .none
  rw [plain.word] at rendered
  exact rendered

theorem members_fields (className : String) {fs : List (String × String)}
    (plain : ∀ f ∈ fs, Plain f) {c : Cursor} (tokens : c.tokens = fs.flatMap fieldTokens) :
    c.Members className (fs.map fun f => (fieldMember f).bare) [] := by
  induction fs generalizing c with
  | nil => exact Cursor.members_end tokens
  | cons f fs ih =>
    have first := fieldMember_rendered className (plain f List.mem_cons_self)
    exact Cursor.members_cons (Cursor.member_rendered first tokens) fun d left =>
      ih (fun f member => plain f (List.mem_cons_of_mem _ member)) left

/-! ### Bodies -/

/-- What the handler is called with. -/
def arguments (field : String) (arity : Nat) : List String :=
  interfaceField :: field :: (List.range arity).map paramName

def callExpr (field : String) (arity : Nat) : Expr :=
  .call (.name handlerField .blank) "call" ((arguments field arity).map fun a => .name a .blank)
    .blank

/-- The statement that gives the handler's answer as one of the type. -/
def answerStmt (type : TypeRef) (call : Expr) : Stmt :=
  match type with
  | .void => .expr call
  | type => .ret (some (if type == .object then call else .cast (writtenType type) call .blank)) .blank

/-- The field that holds the descriptor of a method. -/
def fieldOf (contract : Descriptor) (m : Method) : String :=
  (((methodFields contract).find? (·.2 == m)).map (·.1)).getD ""

/-- The only statement of a method. -/
def bodyStmt (contract : Descriptor) (m : Method) : Stmt :=
  answerStmt m.returnType (callExpr (fieldOf contract m) m.arity)

def nameListTokens (names : List String) : List Token :=
  commaTokens (names.map fun n => [.identifier n])

def callTokens (field : String) (arity : Nat) : List Token :=
  .identifier handlerField :: .symbol .dot :: .identifier "call" :: .symbol .leftParen
    :: (nameListTokens (arguments field arity) ++ [.symbol .rightParen])

def answerTokens (type : TypeRef) (call : List Token) : List Token :=
  match type with
  | .void => call ++ [.symbol .semicolon]
  | type => .keyword .return_
    :: ((if type == .object then []
        else .symbol .leftParen :: (typeTokens type ++ [.symbol .rightParen]))
      ++ call ++ [.symbol .semicolon])

theorem allRendered_names (names : List String) :
    Expr.AllRendered (names.map fun n => .name n .blank) (nameListTokens names) := by
  have name : ∀ n : String, (Expr.name n .blank).Rendered 0 [.identifier n] := fun n =>
    Expr.Rendered.name.lower (by decide) (by decide)
  induction names with
  | nil => exact .nil
  | cons n names ih =>
    cases names with
    | nil => exact .one (name n)
    | cons n' names => exact .more (name n) ih

theorem callExpr_rendered (field : String) (arity : Nat) :
    (callExpr field arity).Rendered 9 (callTokens field arity) :=
  Expr.Rendered.call .name (allRendered_names _)

theorem bracketTokens_succ (dims : Nat) : bracketTokens (dims + 1)
    = bracketTokens dims ++ [.symbol .leftBracket, .symbol .rightBracket] := by
  induction dims with
  | zero => rfl
  | succ dims ih => exact congrArg ([.symbol .leftBracket, .symbol .rightBracket] ++ ·) ih

/-- Legal names are no primitive types. -/
theorem ofKeyword?_of_isQualifiedName {name : String} (legal : isQualifiedName name = true) :
    Primitive.ofKeyword? name = none := by
  have reserved : ∀ p : Primitive, isQualifiedName p.keyword = false := by
    intro p
    cases p <;> decide +kernel
  rw [Option.eq_none_iff_forall_ne_some]
  intro p found
  have held := List.find?_some found
  have word : p.keyword = name := eq_of_beq held
  rw [← word, reserved p] at legal
  cases legal

theorem tokens_writtenType {t : TypeRef} (legal : Source.isWritable t = true) :
    (writtenType t).tokens = typeTokens t := by
  induction t with
  | void => cases legal
  | primitive kind => cases kind <;> rfl
  | named name =>
    have noPrimitive : Primitive.ofKeyword? (writtenType (.named name)).name = none :=
      ofKeyword?_of_isQualifiedName legal
    rw [TypeName.tokens, noPrimitive]
    exact List.append_nil _
  | array element ih =>
    rw [typeTokens, ← ih legal, writtenType, TypeName.tokens, TypeName.tokens, bracketTokens_succ,
      List.append_assoc]

theorem answerStmt_rendered {type : TypeRef} (legal : type = .void ∨ Source.isWritable type = true)
    (field : String) (arity : Nat) :
    (answerStmt type (callExpr field arity)).Rendered
      (answerTokens type (callTokens field arity)) := by
  have call := callExpr_rendered field arity
  have low : (callExpr field arity).Rendered 0 (callTokens field arity) :=
    call.lower (by decide) (by decide)
  have given : type ≠ .void → Stmt.Rendered
      (.ret (some (if type == .object then callExpr field arity
        else .cast (writtenType type) (callExpr field arity) .blank)) .blank)
      (.keyword .return_ :: ((if type == .object then []
        else .symbol .leftParen :: (typeTokens type ++ [.symbol .rightParen]))
          ++ callTokens field arity ++ [.symbol .semicolon])) := by
    intro novoid
    by_cases isObject : (type == .object) = true
    · rw [if_pos isObject, if_pos isObject]
      exact .retValue low
    · rw [if_neg isObject, if_neg isObject]
      have operand : (callExpr field arity).Rendered 8 (callTokens field arity) :=
        call.lower (by decide) (by decide)
      have cast : (Expr.cast (writtenType type) (callExpr field arity) .blank).Rendered 8
          (.symbol .leftParen :: ((writtenType type).tokens
            ++ .symbol .rightParen :: callTokens field arity)) :=
        .cast operand fun _ => rfl
      rw [tokens_writtenType (legal.resolve_left novoid)] at cast
      have whole := Stmt.Rendered.retValue (s := .blank) (cast.lower (by decide) (Nat.zero_le 8))
      simpa only [List.cons_append, List.append_assoc, List.nil_append] using whole
  cases type with
  | void => exact .expr low
  | _ => exact given nofun

theorem spells_call {field : String} (legal : isName field = true) (arity : Nat) {text : List Char}
    {ts : List Token} (h : Spells text ts) :
    Spells ((call field arity).toList ++ text) (callTokens field arity ++ ts) := by
  have own : ∀ n ∈ [handlerField, interfaceField, "call"], isName n = true := by decide +kernel
  have names : ∀ n ∈ arguments field arity, isName n = true := by
    intro n member
    rcases List.mem_cons.1 member with rfl | member
    · exact own _ (by simp)
    · rcases List.mem_cons.1 member with rfl | member
      · exact legal
      · obtain ⟨i, _, rfl⟩ := List.mem_map.1 member
        exact isName_paramName i
  have listed := spellsBefore_list ((arguments field arity).map fun n => (n, [.identifier n])) (by
    intro i member
    obtain ⟨n, there, rfl⟩ := List.mem_map.1 member
    exact spellsBefore_name (names n there)) (by decide) (h.sign (c := ')') rfl)
  rw [List.map_map, List.map_map] at listed
  have same : (fun i : String × List Token => i.1) ∘ (fun n => (n, [Token.identifier n])) = id := rfl
  rw [same, List.map_id] at listed
  have method := spellsBefore_name (own "call" (by simp)) (by decide) (listed.sign (c := '(') rfl)
  have target := spellsBefore_name (own handlerField (by simp)) (by decide)
    (method.sign (c := '.') rfl)
  have dot : ".call(".toList = '.' :: ("call".toList ++ ['(']) := rfl
  have close : ")".toList = [')'] := rfl
  unfold call callTokens nameListTokens
  simp only [String.toList_append, List.append_assoc, dot, close, List.cons_append,
    List.nil_append] at target ⊢
  exact target

theorem isName_fieldOf {contract : Descriptor} (legal : Legal contract) {m : Method}
    (member : m ∈ contract.methods) :
    isName (fieldOf contract m) = true ∧
      (methodFields contract).find? (·.2 == m) = some (fieldOf contract m, m) := by
  rw [← methodFields_methods contract, List.mem_map] at member
  obtain ⟨g, there, rfl⟩ := member
  cases found : (methodFields contract).find? (·.2 == g.2) with
  | none => exact absurd (beq_self_eq_true g.2) (List.find?_eq_none.1 found g there)
  | some f =>
    have held := List.find?_some found
    have same : f.2 = g.2 := eq_of_beq held
    have field : fieldOf contract g.2 = f.1 := by rw [fieldOf, found]; rfl
    rw [field, ← same]
    exact ⟨isName_of_mem_methodFields legal (List.mem_of_find?_eq_some found), rfl⟩

theorem mem_of_mem_abstractMethods {contract : Descriptor} {m : Method}
    (member : m ∈ contract.abstractMethods) : m ∈ contract.methods := (List.mem_filter.1 member).1

/-- What is written for the answer of the handler. -/
def answerText (type : TypeRef) (call : String) : String :=
  match type with
  | .void => call ++ ";"
  | type =>
    if type == .object then "return " ++ call ++ ";"
    else "return (" ++ type.canonicalName ++ ") " ++ call ++ ";"

theorem spells_answer {type : TypeRef} (legal : type = .void ∨ Source.isWritable type = true)
    {call : String} {ts : List Token}
    (called : Spells (call.toList ++ [';']) (ts ++ [.symbol .semicolon])) :
    Spells (answerText type call).toList (answerTokens type ts) := by
  have word : ∀ {text : List Char} {us : List Token}, Spells text us →
      Spells ("return ".toList ++ text) (.keyword .return_ :: us) := fun h =>
    spellsBefore_keyword .return_ (by decide) (Spells.layout (c := ' ') rfl h)
  have given : type ≠ .void → Spells (if type == .object then "return " ++ call ++ ";"
        else "return (" ++ type.canonicalName ++ ") " ++ call ++ ";").toList
      (.keyword .return_ :: ((if type == .object then []
        else .symbol .leftParen :: (typeTokens type ++ [.symbol .rightParen]))
          ++ ts ++ [.symbol .semicolon])) := by
    intro novoid
    by_cases isObject : (type == .object) = true
    · rw [if_pos isObject, if_pos isObject]
      simp only [String.toList_append, List.append_assoc, List.nil_append]
      exact word called
    · rw [if_neg isObject, if_neg isObject]
      have close := (Spells.layout (c := ' ') rfl called).sign (c := ')') rfl
      have typed := spellsBefore_type (legal.resolve_left novoid) (by decide) close
      have whole := word (typed.sign (c := '(') rfl)
      have opened : "return (".toList = "return ".toList ++ ['('] := rfl
      simp only [String.toList_append, List.append_assoc, List.cons_append, List.nil_append,
        opened] at whole ⊢
      exact whole
  cases type with
  | void =>
    unfold answerText answerTokens
    rw [String.toList_append]
    exact called
  | _ => exact given nofun

/-- The body of a method that is written spells the tokens of its statement. -/
theorem spells_methodBody {contract : Descriptor} (legal : Legal contract) {m : Method}
    (member : m ∈ contract.abstractMethods) :
    Spells ((methodBody contract m).getD "").toList
      (answerTokens m.returnType (callTokens (fieldOf contract m) m.arity)) := by
  obtain ⟨name, found⟩ := isName_fieldOf legal (mem_of_mem_abstractMethods member)
  have type := (isWritable_spec (legal.methods m member)).2.1
  have text : methodBody contract m
      = some (answerText m.returnType (call (fieldOf contract m) m.arity)) := by
    rw [methodBody, found]
    rfl
  rw [text]
  exact spells_answer type (spells_call name m.arity (Spells.sign (c := ';') rfl .nil))

/-! ### The source -/

theorem legal_delegating {contract : Descriptor} (legal : Legal contract) :
    Synthesis.Legal .delegating contract (classNameFor contract.name) where
  name := legal.name
  ownName := isName_classNameFor contract.name
  imports := nofun
  superclass := nofun
  interfaces := nofun
  methods := legal.methods

/-- The unit that the source of a delegating class is read as. -/
def unit (contract : Descriptor) : CompilationUnit :=
  meantUnit .delegating contract (classNameFor contract.name)
    ((fields contract).map fieldMember) none fun m => [bodyStmt contract m]

/-- The source of a delegating class is read as it is meant. -/
theorem source_reads {contract : Descriptor} (legal : Legal contract) {source : ClassSource}
    (made : synthesize .delegating contract (classNameFor contract.name) = .ok source) :
    ∃ lexed read, scan source.text = .ok lexed ∧ parse lexed = .ok read ∧
      read.bare = unit contract := by
  have own : ∀ c : Cursor, c.tokens = (fields contract).flatMap fieldTokens →
      c.Members (classNameFor contract.name) (((fields contract).map fieldMember).map Member.bare)
        [] := by
    intro c tokens
    rw [List.map_map]
    exact members_fields _ (plain_fields legal) tokens
  have bodies : ∀ m ∈ contract.abstractMethods,
      Synthesis.Body (answerTokens m.returnType (callTokens (fieldOf contract m) m.arity))
        [bodyStmt contract m] := by
    intro m member c rest tokens
    have type := (isWritable_spec (legal.methods m member)).2.1
    have rendered := answerStmt_rendered type (fieldOf contract m) m.arity
    refine Cursor.blockTail_rendered (.cons rendered .nil) ?_
    rw [List.append_nil]
    exact tokens
  exact synthesize_reads [] (legal_delegating legal) (spells_classBody legal).words? own rfl nofun
    nofun (fun m member => ⟨(spells_methodBody legal member).words?, bodies m member⟩) made

end Delegation

end Classwright

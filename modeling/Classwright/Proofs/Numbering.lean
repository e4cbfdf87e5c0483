import Classwright.Proofs.Members
import Classwright.Proofs.Scoping
import Mathlib.Data.List.Induction

/-!
# Slots of a class

What a compiled class touches, member by member: the fields are numbered in the order in which they
are declared, statics apart from the others, and the names of a body stand for its variables and for
these fields.
-/

namespace Classwright

namespace Source

/-- Parameters have the first slots. The last one is the innermost. -/
def paramVars (params : List Param) : List (String × Nat) :=
  (params.mapIdx fun i p => (p.name, i)).reverse

def Member.field? : Member → Option FieldDecl
  | .field d => some d
  | _ => none

def Member.method? : Member → Option MethodDecl
  | .method d => some d
  | _ => none

def Member.constructor? : Member → Option ConstructorDecl
  | .constructor d => some d
  | _ => none

/-- The kind and the number of a field: statics and the others are counted apart. -/
def fieldSlot (before : List FieldDecl) (d : FieldDecl) : SlotOf :=
  (if d.modifiers.isStatic then .static else .field,
    before.countP fun other => other.modifiers.isStatic == d.modifiers.isStatic)

/-- The slot of the first field of this name, behind those in `before`. -/
def fieldSlot? (name : String) (before : List FieldDecl) : List FieldDecl → Option SlotOf
  | [] => none
  | d :: ds => if d.name = name then some (fieldSlot before d)
    else fieldSlot? name (before ++ [d]) ds

/-- The slot of an own field of a class. -/
def ClassDecl.own? (decl : ClassDecl) (name : String) : Option SlotOf :=
  fieldSlot? name [] (decl.members.filterMap Member.field?)

end Source

namespace Check

open Source (FieldDecl Member fieldSlot fieldSlot? paramVars)

/-- A field's slot as its declaration says it. -/
def FieldInfo.slotOf (info : FieldInfo) : SlotOf :=
  (if info.isStatic then .static else .field, info.slot)

/-- The member is declared by that of the source. -/
def Declares : Source.Member → DeclaredMember → Prop
  | .field d, .field d' info => d' = d ∧ info.name = d.name ∧ info.isStatic = d.modifiers.isStatic
  | .method d, .method d' info => d' = d ∧ info.method.name = d.name ∧
    info.method.params.length = d.params.length
  | .constructor d, .constructor d' params => d' = d ∧ params.length = d.params.length
  | _, _ => False

theorem declares_declareMember (scope : TypeScope) (className : String)
    (before : List DeclaredMember) (m : Source.Member) :
    Declares m (declareMember scope className before m).1 := by
  cases m with
  | field d => exact ⟨rfl, rfl, rfl⟩
  | method d => exact ⟨rfl, rfl, by simp⟩
  | constructor d => exact ⟨rfl, by simp⟩

/-- The members are declared in order. -/
theorem declares_declareMembers (scope : TypeScope) (className : String)
    (ms : List Source.Member) :
    List.Forall₂ Declares ms (declareMembers scope className ms).1 := by
  induction ms using List.reverseRecOn with
  | nil => exact .nil
  | append_singleton ms m ih =>
    rw [declareMembers_concat]
    exact List.rel_append ih (.cons (declares_declareMember ..) .nil)

theorem fieldSlot?_append (name : String) (before ds ds' : List FieldDecl) :
    fieldSlot? name before (ds ++ ds')
      = (fieldSlot? name before ds).or (fieldSlot? name (before ++ ds) ds') := by
  induction ds generalizing before with
  | nil => simp [fieldSlot?]
  | cons d ds ih =>
    rw [List.cons_append, fieldSlot?, fieldSlot?]
    split
    · rfl
    · rw [ih, List.append_assoc, List.singleton_append]

/-- The fields are found by name where the source declares them. -/
structure SameFields (infos : List FieldInfo) (decls : List FieldDecl) : Prop where
  statics : infos.map (·.isStatic) = decls.map (·.modifiers.isStatic)
  found : ∀ name, (infos.find? (·.name == name)).map (·.slotOf) = fieldSlot? name [] decls

theorem SameFields.append_nil {infos : List FieldInfo} {decls : List FieldDecl}
    (h : SameFields infos decls) : SameFields (infos ++ []) (decls ++ []) := by
  rw [List.append_nil, List.append_nil]
  exact h

/-- One more field is numbered by those of its kind in front of it. -/
theorem SameFields.concat {infos : List FieldInfo} {decls : List FieldDecl}
    (h : SameFields infos decls) {info : FieldInfo} {d : FieldDecl} (name : info.name = d.name)
    (isStatic : info.isStatic = d.modifiers.isStatic)
    (slot : info.slot = infos.countP (·.isStatic == d.modifiers.isStatic)) :
    SameFields (infos ++ [info]) (decls ++ [d]) where
  statics := by rw [List.map_append, List.map_append, h.statics, List.map_singleton,
    List.map_singleton, isStatic]
  found := by
    intro sought
    have count := congrArg (List.countP (· == d.modifiers.isStatic)) h.statics
    rw [List.countP_map, List.countP_map] at count
    have same : info.slotOf = fieldSlot decls d := by
      rw [FieldInfo.slotOf, fieldSlot, isStatic, slot]
      exact congrArg _ count
    rw [List.find?_append, Option.map_or, h.found, fieldSlot?_append]
    refine congrArg _ ?_
    rw [List.find?_singleton, fieldSlot?, fieldSlot?, List.nil_append, name]
    by_cases here : d.name = sought
    · simp [here, same]
    · simp [here]

theorem sameFields_declareMembers (scope : TypeScope) (className : String)
    (ms : List Source.Member) :
    SameFields ((declareMembers scope className ms).1.filterMap (·.field?))
      (ms.filterMap Member.field?) := by
  induction ms using List.reverseRecOn with
  | nil => exact ⟨rfl, fun _ => rfl⟩
  | append_singleton ms m ih =>
    rw [declareMembers_concat, List.filterMap_append, List.filterMap_append]
    cases m with
    | field d => exact ih.concat rfl rfl rfl
    | method d => exact ih.append_nil
    | constructor d => exact ih.append_nil

/-- The own fields of a class have the slots that its declaration says. -/
theorem own?_contextOf (table : TypeTable) (unit : Source.CompilationUnit) :
    (contextOf table unit).own? = unit.decl.own? := by
  funext name
  have fields := (sameFields_declareMembers (contextOf table unit).scope unit.decl.name
    unit.decl.members).found name
  rw [← contextOf_members] at fields
  exact fields

/-! ### Bodies -/

/-- A body whose variables have their numbers for slots, and which touches what its source does. -/
structure BodyNumbered (own : String → Option SlotOf) (params : List Source.Param)
    (statements : List Source.Stmt) (locals : Nat) (body : List Code.Stmt) : Prop where
  locals : locals = params.length + Source.Stmt.allVariables statements
  accesses : Code.Stmt.allAccesses ((paramVars params).map (·.2)) body
    = Source.Stmt.allAccesses own (paramVars params) params.length statements
  within : Code.Stmt.AllScoped ((paramVars params).map (·.2)) body

namespace Lower

/-- The variables of parameters from a slot on. -/
def varsFrom (slot : Nat) (params : List Source.Param) : List (String × Nat) :=
  (params.mapIdx fun i p => (p.name, slot + i)).reverse

theorem varsFrom_cons (slot : Nat) (p : Source.Param) (params : List Source.Param) :
    varsFrom slot (p :: params) = varsFrom (slot + 1) params ++ [(p.name, slot)] := by
  rw [varsFrom, List.mapIdx_cons, List.reverse_cons, varsFrom]
  simp only [Nat.add_zero, Nat.add_assoc, Nat.add_comm 1]

theorem varsFrom_zero (params : List Source.Param) : varsFrom 0 params = paramVars params := by
  simp [varsFrom, paramVars]

theorem declareParams_vars (params : List Source.Param) (types : List TypeRef)
    (length : types.length = params.length) :
    Checks (declareParams params types) fun st _ st' => st.Open → st'.Open ∧
      st'.nextSlot = st.nextSlot + params.length ∧
      st'.vars = varsFrom st.nextSlot params ++ st.vars := by
  induction params generalizing types with
  | nil =>
    refine (Checks.pure ()).mono ?_
    rintro st _ _ ⟨_, rfl⟩ isOpen
    exact ⟨isOpen, rfl, rfl⟩
  | cons p params ih =>
    cases types with
    | nil => cases length
    | cons t types =>
      rw [declareParams]
      have rest := ih types (Nat.succ.inj length)
      refine (Checks.seq (declare_vars p.name t p.span) fun _ => rest).mono ?_
      rintro st _ st'' ⟨slot, st', first, rest⟩ isOpen
      obtain ⟨isOpen', rfl, next, vars, _⟩ := first isOpen
      obtain ⟨isOpen'', next', vars'⟩ := rest isOpen'
      refine ⟨isOpen'', ?_, ?_⟩
      · rw [next', next, List.length_cons]
        omega
      · rw [vars', vars, next, varsFrom_cons, List.append_assoc]
        rfl

theorem open_start : ({} : BodyState).Open := ⟨nofun, nofun⟩

/-- A body behind parameters numbers its variables. -/
theorem bodyNumbered (cx : ClassContext) (kind : BodyKind) {params : List Source.Param}
    {types : List TypeRef} (length : types.length = params.length)
    {statements : List Source.Stmt} (clean : (lowerBody do
      declareParams params types
      inScope (lowerStmts cx kind statements)).2.diagnostics = []) :
    BodyNumbered cx.own? params statements (lowerBody do
        declareParams params types
        inScope (lowerStmts cx kind statements)).2.nextSlot
      (lowerBody do
        declareParams params types
        inScope (lowerStmts cx kind statements)).1 := by
  obtain ⟨_, _, st', declared, lowered⟩ := Checks.seq (declareParams_vars params types length)
    (fun _ => (lowerStmts_numbers cx kind statements).inScope) {} clean
  obtain ⟨isOpen, next, vars⟩ := declared open_start
  obtain ⟨_, next', _, touched, within⟩ := lowered isOpen
  have start : st'.vars = paramVars params := by
    rw [vars, varsFrom_zero]
    exact List.append_nil _
  have first : st'.nextSlot = params.length := next.trans (Nat.zero_add _)
  rw [first] at next'
  rw [BodyState.scope, start, first] at touched
  rw [BodyState.scope, start] at within
  exact ⟨next', touched, within⟩

end Lower

/-! ### Members -/

/-- The code of a method whose body is numbered. -/
structure MethodNumbered (own : String → Option SlotOf) (d : Source.MethodDecl)
    (m : Code.Method) : Prop where
  name : m.name = d.name
  params : m.params.length = d.params.length
  body : BodyNumbered own d.params d.body.statements m.locals m.body

structure ConstructorNumbered (own : String → Option SlotOf) (d : Source.ConstructorDecl)
    (k : Code.Constructor) : Prop where
  params : k.params.length = d.params.length
  body : BodyNumbered own d.params d.body.statements k.locals k.body

/-- The initial value of a field touches what its source does, where no variables are in scope. -/
structure FieldNumbered (own : String → Option SlotOf) (isStatic : Bool) (d : FieldDecl)
    (f : Code.Field) : Prop where
  name : f.name = d.name
  init : f.init.map (·.accesses) = d.init.map (·.accesses own [])
  object : isStatic = true → ∀ code, f.init = some code → ∀ a ∈ code.accesses, a.needsThis = false

/-- The code of a class, member by member. -/
structure ClassNumbered (decl : Source.ClassDecl) (code : Code.Class) : Prop where
  fields : List.Forall₂ (FieldNumbered decl.own? false)
    ((decl.members.filterMap Member.field?).filter fun d => !d.modifiers.isStatic) code.fields
  statics : List.Forall₂ (FieldNumbered decl.own? true)
    ((decl.members.filterMap Member.field?).filter fun d => d.modifiers.isStatic) code.statics
  methods : List.Forall₂ (MethodNumbered decl.own?) (decl.members.filterMap Member.method?)
    code.methods
  constructors : List.Forall₂ (ConstructorNumbered decl.own?)
      (decl.members.filterMap Member.constructor?) code.constructors ∨
    decl.members.filterMap Member.constructor? = [] ∧ ∀ k ∈ code.constructors,
      k.params = [] ∧ k.locals = 0 ∧ k.body = []

section

variable {cx : ClassContext} {m : Source.Member} {d : DeclaredMember}

theorem method_numbered (declares : Declares m d) (clean : (compileMember cx d).2 = []) :
    Option.Rel (MethodNumbered cx.own?) m.method? (compileMember cx d).1.method? := by
  cases m with
  | field d' =>
    cases d with
    | field decl info => exact .none
    | method decl info => exact declares.elim
    | constructor decl params => exact declares.elim
  | constructor d' =>
    cases d with
    | field decl info => exact declares.elim
    | method decl info => exact declares.elim
    | constructor decl params => exact .none
  | method d' =>
    cases d with
    | field decl info => exact declares.elim
    | constructor decl params => exact declares.elim
    | method decl info =>
      obtain ⟨rfl, name, length⟩ := declares
      have clean := (List.append_eq_nil_iff.1 clean).1
      exact .some ⟨name, length, Lower.bodyNumbered cx _ length clean⟩

theorem constructor_numbered (declares : Declares m d) (clean : (compileMember cx d).2 = []) :
    Option.Rel (ConstructorNumbered cx.own?) m.constructor?
      (compileMember cx d).1.constructor? := by
  cases m with
  | field d' =>
    cases d with
    | field decl info => exact .none
    | method decl info => exact declares.elim
    | constructor decl params => exact declares.elim
  | method d' =>
    cases d with
    | field decl info => exact declares.elim
    | method decl info => exact .none
    | constructor decl params => exact declares.elim
  | constructor d' =>
    cases d with
    | field decl info => exact declares.elim
    | method decl info => exact declares.elim
    | constructor decl params =>
      obtain ⟨rfl, length⟩ := declares
      have clean := (List.append_eq_nil_iff.1 clean).2
      exact .some ⟨length, Lower.bodyNumbered cx _ length clean⟩

/-- The field of a member, if it is of the kind. -/
def fieldOf? (isStatic : Bool) (m : Member) : Option FieldDecl :=
  m.field?.filter (·.modifiers.isStatic == isStatic)

theorem compileField_numbered {decl : FieldDecl} {info : FieldInfo} (name : info.name = decl.name)
    (isStatic : info.isStatic = decl.modifiers.isStatic)
    (clean : (compileField cx decl info).2 = []) :
    FieldNumbered cx.own? decl.modifiers.isStatic decl (compileField cx decl info).1 := by
  unfold compileField at clean ⊢
  dsimp only at clean ⊢
  cases given : decl.init with
  | none => exact ⟨name, by rw [given]; rfl, fun _ code none_ => nomatch none_⟩
  | some e =>
    rw [given] at clean
    obtain ⟨_, _, same, allowed⟩ := Lower.lowerAs_touches cx _ e info.type {} clean
    refine ⟨name, by rw [given]; exact congrArg some same, ?_⟩
    rintro static code ⟨⟩
    exact allowed (by rw [isStatic, if_pos static])

theorem field_numbered (isStatic : Bool) (declares : Declares m d)
    (clean : (compileMember cx d).2 = []) :
    Option.Rel (FieldNumbered cx.own? isStatic) (fieldOf? isStatic m) (codeOf? cx isStatic d) := by
  cases m with
  | method d' =>
    cases d with
    | field decl info => exact declares.elim
    | method decl info => cases isStatic <;> exact .none
    | constructor decl params => exact declares.elim
  | constructor d' =>
    cases d with
    | field decl info => exact declares.elim
    | method decl info => exact declares.elim
    | constructor decl params => cases isStatic <;> exact .none
  | field d' =>
    cases d with
    | method decl info => exact declares.elim
    | constructor decl params => exact declares.elim
    | field decl info =>
      obtain ⟨rfl, name, kind⟩ := declares
      rw [codeOf?_field, fieldOf?, Member.field?, kind]
      by_cases same : decl.modifiers.isStatic = isStatic
      · subst same
        rw [if_pos rfl, Option.filter_some, if_pos (by simp)]
        exact .some (compileField_numbered name kind clean)
      · rw [if_neg same, Option.filter_some, if_neg (by simpa using same)]
        exact .none

end

theorem filter_fieldOf? (isStatic : Bool) (ms : List Member) :
    ms.filterMap (fieldOf? isStatic)
      = (ms.filterMap Member.field?).filter fun d => d.modifiers.isStatic == isStatic := by
  rw [List.filter_filterMap]
  rfl

/-- Every member of a class that compiles is numbered. -/
theorem classNumbered {table : TypeTable} {unit : Source.CompilationUnit} {code : Code.Class}
    (compiled : compileUnit table unit = .ok code) : ClassNumbered unit.decl code := by
  have accepted := accepted_of_compileUnit compiled
  have declared : List.Forall₂ (fun m d => Declares m d ∧
      (compileMember (contextOf table unit) d).2 = []) unit.decl.members
      (contextOf table unit).members := by
    have both := (List.forall₂_and_left ..).2 ⟨accepted.members_clean,
      (declares_declareMembers (contextOf table unit).scope unit.decl.name
        unit.decl.members).flip⟩
    exact (both.imp fun _ _ h => And.intro h.2 h.1).flip
  have own := own?_contextOf table unit
  have fields : ∀ isStatic, List.Forall₂ (FieldNumbered unit.decl.own? isStatic)
      ((unit.decl.members.filterMap Member.field?).filter fun d => d.modifiers.isStatic == isStatic)
      ((contextOf table unit).members.filterMap (codeOf? (contextOf table unit) isStatic)) := by
    intro isStatic
    rw [← filter_fieldOf?, ← own]
    exact List.rel_filterMap (fun _ _ h => field_numbered isStatic h.1 h.2) declared
  have methods := List.rel_filterMap (fun _ _ h => method_numbered h.1 h.2) declared
  have constructors := List.rel_filterMap (fun _ _ h => constructor_numbered h.1 h.2) declared
  rw [own] at methods constructors
  rw [accepted.assembled]
  refine ⟨?_, ?_, ?_, ?_⟩
  · have instances := fields false
    simp only [beq_false] at instances
    simp only [assemble, List.filterMap_map]
    exact instances
  · have statics := fields true
    simp only [beq_true] at statics
    simp only [assemble, List.filterMap_map]
    exact statics
  · simp only [assemble, List.filterMap_map]
    exact methods
  · simp only [assemble, List.filterMap_map]
    split
    · rename_i none_
      right
      rw [List.isEmpty_iff] at none_
      have length : _ = List.length [] := constructors.length_eq.trans (congrArg _ none_)
      refine ⟨List.eq_nil_of_length_eq_zero length, fun k member => ?_⟩
      rw [List.mem_singleton.1 member]
      exact ⟨rfl, rfl, rfl⟩
    · exact .inl constructors

end Check

/-! ### Bounds -/

/-- The slot that is declared. -/
def Access.declared? : Access → Option Nat
  | declare slot => some slot
  | _ => none

/-- The slots are below these bounds for variables and own fields. -/
def Access.Below (locals : Nat) (bound : SlotKind → Nat) : Access → Prop
  | read .local_ slot | write .local_ slot | declare slot => slot < locals
  | read kind slot | write kind slot => slot < bound kind
  | _ => True

namespace Source

variable {own : String → Option SlotOf}

theorem declared_expr (vars : List (String × Nat)) (e : Expr) :
    (e.accesses own vars).filterMap Access.declared? = [] := by
  rw [List.filterMap_eq_nil_iff]
  intro a member
  have touched := e.touched own vars a member
  cases a with
  | declare slot => exact touched.elim
  | _ => rfl

mutual

/-- A statement declares the next slots, each once. -/
theorem Stmt.declared : (s : Stmt) → (vars : List (String × Nat)) → (next : Nat) →
    (s.accesses own vars next).filterMap Access.declared? = List.range' next s.variables
  | .declare _ _ none _, vars, next => by
    rw [Stmt.accesses, Stmt.variables]
    rfl
  | .declare _ _ (some e) _, vars, next => by
    rw [Stmt.accesses, Stmt.variables, List.filterMap_append, declared_expr]
    rfl
  | .block body _, vars, next => by
    rw [Stmt.accesses, Stmt.variables, Stmt.allDeclared body]
  | .ret none _, vars, next | .empty _, vars, next => by
    rw [Stmt.accesses, Stmt.variables]
    rfl
  | .ret (some e) _, vars, next | .throw e _, vars, next | .expr e, vars, next => by
    rw [Stmt.accesses, Stmt.variables, declared_expr]
    rfl
  | .ifThen c t _, vars, next => by
    rw [Stmt.accesses, Stmt.variables, List.filterMap_append, declared_expr, t.declared]
    rfl
  | .ifElse c t e _, vars, next => by
    rw [Stmt.accesses, Stmt.variables, List.filterMap_append, List.filterMap_append, declared_expr,
      t.declared, e.declared, List.nil_append, List.range'_append_1]
  | .loop c b _, vars, next => by
    rw [Stmt.accesses, Stmt.variables, List.filterMap_append, declared_expr, b.declared]
    rfl

theorem Stmt.allDeclared : (ss : List Stmt) → (vars : List (String × Nat)) → (next : Nat) →
    (Stmt.allAccesses own vars next ss).filterMap Access.declared?
      = List.range' next (Stmt.allVariables ss)
  | [], vars, next => by
    rw [Stmt.allAccesses, Stmt.allVariables]
    rfl
  | s :: ss, vars, next => by
    rw [Stmt.allAccesses, Stmt.allVariables, List.filterMap_append, s.declared,
      Stmt.allDeclared ss, List.range'_append_1]

end

/-- All accesses are below the bounds. -/
def AllBelow (locals : Nat) (bound : SlotKind → Nat) (accesses : List Access) : Prop :=
  ∀ a ∈ accesses, a.Below locals bound

section

variable {bound : SlotKind → Nat}

theorem allBelow_append {locals : Nat} {xs ys : List Access} :
    AllBelow locals bound (xs ++ ys) ↔ AllBelow locals bound xs ∧ AllBelow locals bound ys := by
  simp only [AllBelow, List.mem_append, or_imp, forall_and]

theorem AllBelow.mono {locals more : Nat} {xs : List Access} (h : AllBelow locals bound xs)
    (le : locals ≤ more) : AllBelow more bound xs := by
  intro a member
  have below := h a member
  cases a with
  | declare slot => exact Nat.lt_of_lt_of_le below le
  | read kind slot =>
    cases kind with
    | local_ => exact Nat.lt_of_lt_of_le below le
    | _ => exact below
  | write kind slot =>
    cases kind with
    | local_ => exact Nat.lt_of_lt_of_le below le
    | _ => exact below
  | _ => trivial

/-- Own fields have slots below the bound of their kind. -/
def Bounded (own : String → Option SlotOf) (bound : SlotKind → Nat) : Prop :=
  ∀ name kind slot, own name = some (kind, slot) → kind ≠ .local_ ∧ slot < bound kind

/-- The variables in scope have slots in front of the next one. -/
def InFront (vars : List (String × Nat)) (next : Nat) : Prop := ∀ slot ∈ vars.map (·.2), slot < next

theorem Expr.inBounds (bounded : Bounded own bound) {vars : List (String × Nat)} {next : Nat}
    (front : InFront vars next) (e : Expr) : AllBelow next bound (e.accesses own vars) := by
  have place : ∀ kind slot, Touched own vars (.read kind slot) →
      (Access.read kind slot).Below next bound ∧ (Access.write kind slot).Below next bound := by
    rintro kind slot (⟨rfl, inScope⟩ | ⟨name, known⟩)
    · exact ⟨front slot inScope, front slot inScope⟩
    · obtain ⟨notLocal, below⟩ := bounded name kind slot known
      cases kind with
      | local_ => exact absurd rfl notLocal
      | _ => exact ⟨below, below⟩
  intro a member
  have touched := e.touched own vars a member
  cases a with
  | read kind slot => exact (place kind slot touched).1
  | write kind slot => exact (place kind slot touched).2
  | declare slot => exact touched.elim
  | _ => trivial

theorem inFront_adds {vars : List (String × Nat)} {next : Nat} (front : InFront vars next)
    (s : Stmt) : InFront (s.adds next ++ vars) (next + s.variables) := by
  intro slot member
  rw [List.map_append, List.mem_append] at member
  rcases member with new | old
  · cases s with
    | declare type name init span =>
      rw [Stmt.variables]
      rw [List.mem_singleton.1 new]
      exact Nat.lt_succ_self next
    | _ => exact nomatch new
  · have below := front slot old
    omega

mutual

/-- A statement touches slots of variables that are in scope or that it declares itself. -/
theorem Stmt.inBounds (bounded : Bounded own bound) :
    (s : Stmt) → {vars : List (String × Nat)} → {next : Nat} →
    InFront vars next → AllBelow (next + s.variables) bound (s.accesses own vars next)
  | .declare _ _ none _, vars, next, front => by
    rw [Stmt.accesses, Stmt.variables]
    intro a member
    rw [List.mem_singleton.1 member]
    exact Nat.lt_succ_self next
  | .declare _ _ (some e) _, vars, next, front => by
    rw [Stmt.accesses, Stmt.variables, allBelow_append]
    refine ⟨(e.inBounds bounded front).mono (Nat.le_succ next), fun a member => ?_⟩
    rw [List.mem_singleton.1 member]
    exact Nat.lt_succ_self next
  | .block body _, vars, next, front => by
    rw [Stmt.accesses, Stmt.variables]
    exact Stmt.allInBounds bounded body front
  | .ret none _, vars, next, front | .empty _, vars, next, front => by
    rw [Stmt.accesses]
    exact fun _ member => nomatch member
  | .ret (some e) _, vars, next, front | .throw e _, vars, next, front
  | .expr e, vars, next, front => by
    rw [Stmt.accesses, Stmt.variables]
    exact e.inBounds bounded front
  | .ifThen c t _, vars, next, front => by
    rw [Stmt.accesses, Stmt.variables, allBelow_append]
    exact ⟨(c.inBounds bounded front).mono (Nat.le_add_right ..), t.inBounds bounded front⟩
  | .ifElse c t e _, vars, next, front => by
    have front' : InFront vars (next + t.variables) := fun slot member =>
      Nat.lt_of_lt_of_le (front slot member) (Nat.le_add_right ..)
    rw [Stmt.accesses, Stmt.variables, allBelow_append, allBelow_append, ← Nat.add_assoc]
    refine ⟨(c.inBounds bounded front).mono ?_, (t.inBounds bounded front).mono ?_,
      e.inBounds bounded front'⟩
    · omega
    · omega
  | .loop c b _, vars, next, front => by
    rw [Stmt.accesses, Stmt.variables, allBelow_append]
    exact ⟨(c.inBounds bounded front).mono (Nat.le_add_right ..), b.inBounds bounded front⟩

theorem Stmt.allInBounds (bounded : Bounded own bound) :
    (ss : List Stmt) → {vars : List (String × Nat)} → {next : Nat} →
    InFront vars next →
    AllBelow (next + Stmt.allVariables ss) bound (Stmt.allAccesses own vars next ss)
  | [], vars, next, front => by
    rw [Stmt.allAccesses]
    exact fun _ member => nomatch member
  | s :: ss, vars, next, front => by
    rw [Stmt.allAccesses, Stmt.allVariables, allBelow_append, ← Nat.add_assoc]
    exact ⟨(s.inBounds bounded front).mono (Nat.le_add_right ..),
      Stmt.allInBounds bounded ss (inFront_adds front s)⟩

end

end

/-- Fields are numbered below the number of fields of their kind. -/
theorem fieldSlot?_lt {name : String} {before ds : List FieldDecl} {slot : SlotOf}
    (found : fieldSlot? name before ds = some slot) :
    (slot.1 = .static ∧ slot.2 < (before ++ ds).countP (·.modifiers.isStatic)) ∨
      slot.1 = .field ∧ slot.2 < (before ++ ds).countP fun d => !d.modifiers.isStatic := by
  induction ds generalizing before with
  | nil => cases found
  | cons d ds ih =>
    rw [fieldSlot?] at found
    split at found
    · cases found
      unfold fieldSlot
      cases kind : d.modifiers.isStatic with
      | true =>
        refine .inl ⟨rfl, ?_⟩
        simp only [beq_true, List.countP_append, List.countP_cons, kind, if_true]
        omega
      | false =>
        refine .inr ⟨rfl, ?_⟩
        simp only [beq_false, List.countP_append, List.countP_cons, kind, Bool.not_false, if_true]
        omega
    · rw [← List.singleton_append, ← List.append_assoc]
      exact ih found

end Source

namespace Code

/-- How many fields of a kind a class has. -/
def Class.bound (code : Class) : SlotKind → Nat
  | .local_ => 0
  | .field => code.fields.length
  | .static => code.statics.length

/-- The slots of parameters. -/
def paramScope (params : List TypeRef) : List Nat := (List.range params.length).reverse

/-- A body touches slots that there are, and each variable has a slot of its own. -/
structure Class.BodyScoped (code : Class) (params : List TypeRef) (locals : Nat)
    (body : List Stmt) : Prop where
  enough : params.length ≤ locals
  below : ∀ a ∈ Stmt.allAccesses (paramScope params) body, a.Below locals code.bound
  declared : (Stmt.allAccesses (paramScope params) body).filterMap Access.declared?
    = List.range' params.length (locals - params.length)
  within : Stmt.AllScoped (paramScope params) body

/-- Compiled code touches slots that there are. Initial values touch no variables, and those of
static fields no object. -/
structure Class.WellScoped (code : Class) : Prop where
  methods : ∀ m ∈ code.methods, code.BodyScoped m.params m.locals m.body
  constructors : ∀ k ∈ code.constructors, code.BodyScoped k.params k.locals k.body
  fields : ∀ f ∈ code.fields, ∀ e, f.init = some e → ∀ a ∈ e.accesses, a.Below 0 code.bound
  statics : ∀ f ∈ code.statics, ∀ e, f.init = some e →
    ∀ a ∈ e.accesses, a.Below 0 code.bound ∧ a.needsThis = false

end Code

namespace Check

open Source (paramVars Member)

theorem scope_paramVars (params : List Source.Param) :
    (paramVars params).map (·.2) = (List.range params.length).reverse := by
  rw [paramVars, List.map_reverse]
  refine congrArg _ (List.ext_getElem (by simp) fun i _ _ => ?_)
  simp

theorem bounded_own {decl : Source.ClassDecl} {code : Code.Class} (h : ClassNumbered decl code) :
    Source.Bounded decl.own? code.bound := by
  intro name kind slot found
  have statics := h.statics.length_eq
  have fields := h.fields.length_eq
  rw [← List.countP_eq_length_filter] at statics fields
  rcases Source.fieldSlot?_lt found with ⟨rfl, below⟩ | ⟨rfl, below⟩
  · exact ⟨nofun, Nat.lt_of_lt_of_eq below statics⟩
  · exact ⟨nofun, Nat.lt_of_lt_of_eq below fields⟩

/-- Code of numbered bodies touches slots that there are. -/
theorem BodyNumbered.scoped {code : Code.Class} {own : String → Option SlotOf}
    (bounded : Source.Bounded own code.bound) {params : List Source.Param}
    {statements : List Source.Stmt} {locals : Nat} {body : List Code.Stmt}
    (h : BodyNumbered own params statements locals body) {types : List TypeRef}
    (length : types.length = params.length) : code.BodyScoped types locals body := by
  have scope : (paramVars params).map (·.2) = Code.paramScope types := by
    rw [scope_paramVars, Code.paramScope, length]
  have front : Source.InFront (paramVars params) params.length := by
    intro slot member
    rw [scope_paramVars, List.mem_reverse, List.mem_range] at member
    exact member
  have accesses := h.accesses
  rw [scope] at accesses
  refine ⟨?_, ?_, ?_, scope ▸ h.within⟩
  · rw [h.locals, length]
    exact Nat.le_add_right ..
  · rw [accesses, h.locals]
    exact Source.Stmt.allInBounds bounded statements front
  · rw [accesses, Source.Stmt.allDeclared, h.locals, length, Nat.add_sub_cancel_left]

theorem exists_of_forall₂ {α β : Type} {R : α → β → Prop} {xs : List α} {ys : List β}
    (h : List.Forall₂ R xs ys) {y : β} (member : y ∈ ys) : ∃ x, R x y := by
  induction h with
  | nil => cases member
  | cons first _ ih =>
    rcases List.mem_cons.1 member with rfl | member
    · exact ⟨_, first⟩
    · exact ih member

/-- The code of a numbered class touches slots that there are. -/
theorem ClassNumbered.wellScoped {decl : Source.ClassDecl} {code : Code.Class}
    (h : ClassNumbered decl code) : code.WellScoped := by
  have bounded := bounded_own h
  have init : ∀ {isStatic d} {f : Code.Field}, FieldNumbered decl.own? isStatic d f → ∀ e,
      f.init = some e → ∀ a ∈ e.accesses, a.Below 0 code.bound := by
    intro isStatic d f numbered e given
    have same := numbered.init
    rw [given, Option.map_some] at same
    obtain ⟨source, _, same⟩ := Option.map_eq_some_iff.1 same.symm
    rw [← same]
    have noVars : Source.InFront [] 0 := fun _ member => nomatch member
    exact source.inBounds bounded noVars
  refine ⟨fun m member => ?_, fun k member => ?_, fun f member e given => ?_,
    fun f member e given a touched => ?_⟩
  · obtain ⟨d, numbered⟩ := exists_of_forall₂ h.methods member
    exact numbered.body.scoped bounded numbered.params
  · rcases h.constructors with declared | ⟨_, standard⟩
    · obtain ⟨d, numbered⟩ := exists_of_forall₂ declared member
      exact numbered.body.scoped bounded numbered.params
    · obtain ⟨params, locals, body⟩ := standard k member
      rw [params, locals, body]
      exact ⟨Nat.le_refl 0, fun _ touched => (nomatch touched), rfl, trivial⟩
  · obtain ⟨d, numbered⟩ := exists_of_forall₂ h.fields member
    exact init numbered e given
  · obtain ⟨d, numbered⟩ := exists_of_forall₂ h.statics member
    exact ⟨init numbered e given a touched, numbered.object rfl e given a touched⟩

end Check

end Classwright

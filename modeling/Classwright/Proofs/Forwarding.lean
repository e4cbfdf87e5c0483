import Mathlib.Data.List.Nodup
import Classwright.Proofs.Delegating
import Classwright.Proofs.Numbering

/-!
# The code of a delegating class

The source of a delegating class is compiled to one code, whatever types are declared, if it is
compiled at all: private fields without initial values for the handler, the interface and the method
descriptors, and one method for each abstract method of the contract, which hands its parameters to
the handler.
-/

namespace Classwright

open Check
open Source (TypeName Param Member FieldDecl MethodDecl)

/-! ### Lowering that reports nothing -/

namespace Check

/-- The lowering gives this, reports nothing and leaves the variables alone. -/
def Lower.Settles {α : Type} (body : Lower α) (st : BodyState) (a : α) : Prop := body st = (a, st)

namespace Lower.Settles

variable {α β : Type} {st : BodyState}

theorem pure (a : α) : Settles (pure a) st a := rfl

theorem bind {body : Lower α} {next : α → Lower β} {a : α} {b : β} (h : Settles body st a)
    (hnext : Settles (next a) st b) : Settles (body >>= next) st b := by
  change next (body st).1 (body st).2 = (b, st)
  rw [h]
  exact hnext

end Lower.Settles

theorem find?_of_nodup {α β : Type} [BEq β] [LawfulBEq β] {f : α → β} {l : List α}
    (distinct : (l.map f).Nodup) {a : α} (member : a ∈ l) :
    l.find? (fun b => f b == f a) = some a := by
  cases found : l.find? (fun b => f b == f a) with
  | none => exact absurd (beq_self_eq_true (f a)) (List.find?_eq_none.1 found a member)
  | some b =>
    have same : f b = f a := by simpa using List.find?_some found
    rw [List.inj_on_of_nodup_map distinct (List.mem_of_find?_eq_some found) member same]

section

variable {cx : ClassContext} {kind : BodyKind} {st : BodyState} {name : String} {span : Span}

theorem lowerExpr_variable {v : Variable}
    (found : st.scopes.flatten.find? (·.1 == name) = some (name, v)) :
    (lowerExpr cx kind (.name name span)).Settles st (.var v.slot, .of v.type) := by
  have looked : (Lower.lookupVariable? name).Settles st (some v) := by
    change ((st.scopes.flatten.find? (·.1 == name)).map (·.2), st) = _
    rw [found]
    rfl
  rw [lowerExpr]
  refine .bind (a := some (.var v.slot v.type)) (.bind looked ?_) ?_
  · exact .pure _
  · exact .pure _

theorem lowerExpr_field {info : FieldInfo} (free : st.scopes.flatten.find? (·.1 == name) = none)
    (own : cx.field? name = some info) (isInstance : info.isStatic = false)
    (dynamic : kind ≠ .staticInit) :
    (lowerExpr cx kind (.name name span)).Settles st (.field info.slot, .of info.type) := by
  have looked : (Lower.lookupVariable? name).Settles st none := by
    change ((st.scopes.flatten.find? (·.1 == name)).map (·.2), st) = _
    rw [free]
    rfl
  rw [lowerExpr]
  refine .bind (a := some (.field info.slot info.type)) (.bind looked ?_) ?_
  · unfold fieldPlace?
    rw [own]
    dsimp only
    rw [isInstance, if_neg Bool.false_ne_true, if_neg dynamic]
    exact .pure _
  · exact .pure _

theorem lowerArgs_settles {es : List Source.Expr} {results : List Lowered}
    (each : List.Forall₂ (fun e r => (lowerExpr cx kind e).Settles st r) es results) :
    ∃ args, (lowerArgs cx kind es).Settles st args ∧
      args.map (fun a => (a.code, a.type)) = results := by
  induction each with
  | nil => exact ⟨[], by rw [lowerArgs]; exact .pure _, rfl⟩
  | @cons e r es results first _ ih =>
    obtain ⟨args, rest, same⟩ := ih
    refine ⟨⟨r.1, r.2, e.span⟩ :: args, ?_, congrArg _ same⟩
    rw [lowerArgs]
    exact .bind first (.bind rest (.pure _))

theorem isAssignableRef_self {t : TypeRef} (legal : Source.isWritable t = true) :
    cx.isAssignableRef t t = true := by
  induction t with
  | void => cases legal
  | primitive kind =>
    rw [ClassContext.isAssignableRef, Primitive.widensTo, beq_self_eq_true, Bool.true_or]
  | named name =>
    rw [ClassContext.isAssignableRef, ClassContext.isSubtype, beq_self_eq_true, Bool.true_or,
      Bool.true_or]
  | array element ih =>
    cases element with
    | void => cases legal
    | primitive kind => simp [ClassContext.isAssignableRef]
    | named name => exact ih legal
    | array inner => exact ih legal

theorem isAssignable_self {t : TypeRef} (legal : Source.isWritable t = true) :
    cx.isAssignable (.of t) t = true := by
  cases t with
  | void => cases legal
  | _ => exact isAssignableRef_self legal

/-- A cast gives what is required of it. -/
theorem coerce_cast {t : TypeRef} (legal : Source.isWritable t = true) (mode : Code.CastMode)
    (e : Code.Expr) : (coerce cx (.cast t mode e) (.of t) t span).Settles st (.cast t mode e) := by
  have fits : cx.isAssignable (.of t) t = true := isAssignable_self legal
  cases t with
  | void => cases legal
  | primitive kind =>
    unfold coerce
    simp [StaticType.of] at fits ⊢
    simp [fits, promote]
    rfl
  | _ =>
    unfold coerce
    simp [StaticType.of] at fits ⊢
    simp [fits]
    rfl

/-- References of a type are passed as they are. -/
theorem coerce_same (e : Code.Expr) {t : TypeRef} (fits : cx.isAssignable (.ref t) t = true) :
    (coerce cx e (.ref t) t span).Settles st e := by
  unfold coerce
  simp [fits]
  rfl

theorem coerceArgs_rest {args : List Argument} (values : ∀ a ∈ args, a.type ≠ .void) :
    (coerceArgs cx [] args).Settles st (args.map (·.code)) := by
  induction args with
  | nil => exact .pure _
  | cons a args ih =>
    rw [coerceArgs, if_neg (values a List.mem_cons_self)]
    exact .bind (ih fun a member => values a (List.mem_cons_of_mem _ member)) (.pure _)

end

/-- A written type has the name and the dimensions of the type. -/
theorem denotes_writtenType {t : TypeRef} (legal : Source.isWritable t = true) :
    (∀ kind, Primitive.ofKeyword? (Source.writtenType t).name = some kind →
      (TypeRef.primitive kind).withDims (Source.writtenType t).dims = t) ∧
    (Primitive.ofKeyword? (Source.writtenType t).name = none →
      (TypeRef.named (Source.writtenType t).name).withDims (Source.writtenType t).dims = t) := by
  induction t with
  | void => cases legal
  | primitive kind =>
    cases kind
    all_goals
      refine ⟨?_, fun none_ => ?_⟩
      · rintro _ ⟨⟩
        rfl
      · cases none_
  | named name =>
    refine ⟨fun kind found => ?_, fun _ => rfl⟩
    rw [show (Source.writtenType (.named name)).name = name from rfl,
      Delegation.ofKeyword?_of_isQualifiedName legal] at found
    cases found
  | array element ih =>
    obtain ⟨primitive, named⟩ := ih legal
    exact ⟨fun kind found => congrArg TypeRef.array (primitive kind found),
      fun none_ => congrArg TypeRef.array (named none_)⟩

/-- A type that has been written is resolved to itself, if to any, where nothing is imported. -/
theorem TypeScope.resolve_written {scope : TypeScope} (plain : scope.imports = []) {t : TypeRef}
    (legal : Source.isWritable t = true) {w : TypeName} (written : w.bare = Source.writtenType t)
    {u : TypeRef} (found : scope.resolve w = .ok u) : u = t := by
  obtain ⟨primitive_, named⟩ := denotes_writtenType legal
  rw [← written] at primitive_ named
  have itself : ∀ {name other : String}, scope.resolveName? name = some other → other = name := by
    intro name other looked
    have none_ : scope.imported? name = none := by rw [imported?, plain]; rfl
    unfold resolveName? at looked
    rw [none_] at looked
    grind
  unfold resolve at found
  split at found
  · rename_i kind isPrimitive
    exact (Except.ok.inj found).symm.trans (primitive_ kind isPrimitive)
  · rename_i noPrimitive
    split at found
    · rename_i name looked
      rw [itself looked] at found
      exact (Except.ok.inj found).symm.trans (named noPrimitive)
    · cases found

/-- Where a type stands in the source does not matter. -/
theorem TypeScope.resolve_bare {scope : TypeScope} {w w' : TypeName} (same : w.bare = w'.bare)
    {t : TypeRef} (found : scope.resolve w = .ok t) : scope.resolve w' = .ok t := by
  obtain ⟨name, dims, _⟩ := TypeName.mk.inj same
  unfold resolve at found ⊢
  rw [← name, ← dims]
  split at found
  · exact found
  · split at found
    · exact found
    · cases found

end Check

namespace Delegation

/-! ### The code -/

/-- The slot of the field that holds the descriptor of a method. -/
def methodSlot (contract : Descriptor) (m : Method) : Nat := contract.methods.idxOf m + 2

/-- Calls the handler with the interface, the method's descriptor and the parameters. -/
def callCode (slot arity : Nat) : Code.Expr :=
  .invoke (.field 0) "call" (.field 1 :: .field slot :: (List.range arity).map .var)

/-- Settles the handler's answer as one of the type. -/
def answerCode (type : TypeRef) (call : Code.Expr) : Code.Stmt :=
  match type with
  | .void => .expr call
  | type => .ret (some (if type == .object then call else .cast type .check call))

def methodCode (contract : Descriptor) (m : Method) : Code.Method where
  name := m.name
  params := m.params
  returnType := m.returnType
  throws := m.throws
  visibility := Synthesis.meantVisibility m
  locals := m.arity
  body := [answerCode m.returnType (callCode (methodSlot contract m) m.arity)]

def fieldCode (f : String × String) : Code.Field := ⟨f.1, .named f.2, .hidden, false, none⟩

/-- What the class that delegates the methods of an interface is compiled to. -/
def code (contract : Descriptor) : Code.Class where
  version := Code.formatVersion
  name := classNameFor contract.name
  superclass := Builtin.object
  interfaces := [contract.name]
  fields := (fields contract).map fieldCode
  statics := []
  constructors := [⟨[], .visible, 0, []⟩]
  methods := contract.abstractMethods.map (methodCode contract)

/-- The fields of the class have names of their own. -/
def Distinct (contract : Descriptor) : Prop := ((fields contract).map (·.1)).Nodup

/-! ### Declarations -/

def fieldInfo (slot : Nat) (f : String × String) : FieldInfo :=
  ⟨f.1, .named f.2, .hidden, false, false, slot⟩

/-- The members declare these fields, each with a name of its own. -/
structure FieldsDeclared (fs : List (String × String)) (members : List DeclaredMember) : Prop where
  infos : members.filterMap (·.field?) = fs.mapIdx fieldInfo
  codes : ∀ cx, members.map (fun m => (compileMember cx m).1)
    = fs.map fun f => .field false (fieldCode f)
  distinct : (fs.map (·.1)).Nodup

/-- The member declares the implementation of a method, with this body. What the method returns is
a known type. -/
def MethodDeclared (scope : TypeScope) (m : Method) (body : Source.Stmt) (member : DeclaredMember) :
    Prop :=
  ∃ decl info, member = .method decl info ∧
    (Member.method decl).bare = Synthesis.meantMethod m [body] ∧
    info.method = { m with visibility := Synthesis.meantVisibility m, isAbstract := false } ∧
    (m.returnType ≠ .void →
      scope.resolve (Source.writtenType m.returnType) = .ok m.returnType)

section

variable {scope : TypeScope} {className : String}

theorem resolve_of_clean (plain : scope.imports = []) {t : TypeRef}
    (legal : Source.isWritable t = true) {w : TypeName} (written : w.bare = Source.writtenType t)
    (clean : (scope.resolveOr w).2 = []) : scope.resolve w = .ok t := by
  unfold TypeScope.resolveOr at clean
  cases found : scope.resolve w with
  | ok u => rw [scope.resolve_written plain legal written found]
  | error d =>
    rw [found] at clean
    cases clean

theorem resolveOr_written (plain : scope.imports = []) {t : TypeRef}
    (legal : Source.isWritable t = true) {w : TypeName} (written : w.bare = Source.writtenType t)
    (clean : (scope.resolveOr w).2 = []) : (scope.resolveOr w).1 = t := by
  rw [TypeScope.resolveOr, resolve_of_clean plain legal written clean]

theorem resolveAll_written (plain : scope.imports = []) {ts : List TypeRef}
    (legal : ∀ t ∈ ts, Source.isWritable t = true) {ws : List TypeName}
    (written : ws.map TypeName.bare = ts.map Source.writtenType)
    (clean : (scope.resolveAll ws).2 = []) : (scope.resolveAll ws).1 = ts := by
  induction ts generalizing ws with
  | nil =>
    rw [List.map_nil, List.map_eq_nil_iff] at written
    rw [written]
    rfl
  | cons t ts ih =>
    obtain ⟨w, ws', rfl, first, rest⟩ := List.map_eq_cons_iff.1 written
    simp only [TypeScope.resolveAll, List.map_cons, List.flatMap_cons, List.append_eq_nil_iff]
      at clean ⊢
    rw [resolveOr_written plain (legal t List.mem_cons_self) first clean.1]
    exact congrArg _ (ih (fun t member => legal t (List.mem_cons_of_mem _ member)) rest clean.2)

theorem fields_declared (plain : scope.imports = []) {fs : List (String × String)}
    (legal : ∀ f ∈ fs, Source.isQualifiedName f.2 = true) {ms : List Member}
    (same : ms.map Member.bare = fs.map fun f => (fieldMember f).bare)
    (clean : (declareMembers scope className ms).2 = []) :
    FieldsDeclared fs (declareMembers scope className ms).1 := by
  induction fs using List.reverseRecOn generalizing ms with
  | nil =>
    rw [List.map_nil, List.map_eq_nil_iff] at same
    subst same
    exact ⟨rfl, fun _ => rfl, List.nodup_nil⟩
  | append_singleton fs f ih =>
    rw [List.map_append, List.map_singleton] at same
    obtain ⟨before, last, rfl, front, here⟩ := List.map_eq_append_iff.1 same
    obtain ⟨m, rfl, meant⟩ := List.map_eq_singleton_iff.1 here
    rw [declareMembers_concat_diagnostics, List.append_eq_nil_iff] at clean
    have earlier := ih (fun f member => legal f (List.mem_append_left _ member)) front clean.1
    cases m with
    | method d => cases meant
    | constructor d => cases meant
    | field d =>
      obtain ⟨modifiers, type, name, init, span⟩ := d
      obtain ⟨rfl, written, rfl, none_⟩ : modifiers = { visibility := some .hidden } ∧
          type.bare = Synthesis.named f.2 ∧ name = f.1 ∧ init = none := by
        have parts := Member.field.inj meant
        simp only [FieldDecl.bare, FieldDecl.mk.injEq, Option.map_none, Option.map_eq_none_iff]
          at parts
        exact ⟨parts.1, parts.2.1, parts.2.2.1, parts.2.2.2.1⟩
      have silent := clean.2
      simp only [declareMember, List.append_eq_nil_iff] at silent
      have resolved : (scope.resolveOr type).1 = .named f.2 :=
        resolveOr_written (t := .named f.2) plain (legal f (by simp)) written silent.2
      have new : ∀ g ∈ fs, g.1 ≠ f.1 := by
        have unused := silent.1
        rw [earlier.infos] at unused
        intro g member taken
        obtain ⟨i, inside, rfl⟩ := List.getElem_of_mem member
        have there : fieldInfo i fs[i] ∈ fs.mapIdx fieldInfo := by
          rw [List.mem_mapIdx]
          exact ⟨i, inside, rfl⟩
        have any : (fs.mapIdx fieldInfo).any (·.name == f.1) = true :=
          List.any_eq_true.2 ⟨_, there, by simpa [fieldInfo] using taken⟩
        rw [any] at unused
        cases unused
      have count : (fs.mapIdx fieldInfo).countP (·.isStatic == false) = fs.length := by
        rw [List.countP_eq_length.2, List.length_mapIdx]
        intro info member
        obtain ⟨i, inside, rfl⟩ := List.mem_mapIdx.1 member
        rfl
      have slot := congrArg (List.countP (·.isStatic == false)) earlier.infos
      rw [count] at slot
      have declared : (declareMember scope className (declareMembers scope className before).1
          (.field ⟨{ visibility := some .hidden }, type, f.1, init, span⟩)).1
          = .field ⟨{ visibility := some .hidden }, type, f.1, init, span⟩
            (fieldInfo fs.length f) := by
        rw [fieldInfo, ← resolved, ← slot]
        rfl
      rw [declareMembers_concat, declared]
      refine ⟨?_, fun cx => ?_, ?_⟩
      · rw [List.filterMap_append, earlier.infos, List.mapIdx_concat]
        rfl
      · rw [List.map_append, earlier.codes, List.map_append, List.map_singleton, compileMember,
          compileField, none_]
        rfl
      · rw [List.map_append, List.map_singleton, List.nodup_append]
        refine ⟨earlier.distinct, by simp, fun a member b last same => ?_⟩
        obtain ⟨g, inside, rfl⟩ := List.mem_map.1 member
        exact new g inside (same.trans (List.mem_singleton.1 last))

theorem returnType_written (plain : scope.imports = []) {t : TypeRef}
    (legal : t = .void ∨ Source.isWritable t = true) {returnType : Option TypeName}
    (written : returnType.map TypeName.bare
      = if t = .void then none else some (Source.writtenType t))
    (clean : (match returnType with
      | none => (TypeRef.void, ([] : List Diagnostic))
      | some w => scope.resolveOr w).2 = []) :
    (match returnType with
      | none => (TypeRef.void, ([] : List Diagnostic))
      | some w => scope.resolveOr w).1 = t ∧
    (t ≠ .void → scope.resolve (Source.writtenType t) = .ok t) := by
  by_cases void : t = .void
  · rw [if_pos void, Option.map_eq_none_iff] at written
    rw [written, void]
    exact ⟨rfl, fun novoid => absurd rfl novoid⟩
  · rw [if_neg void, Option.map_eq_some_iff] at written
    obtain ⟨w, rfl, spelled⟩ := written
    have legalType := legal.resolve_left void
    have known := resolve_of_clean plain legalType spelled clean
    rw [← Source.bare_writtenType] at spelled
    exact ⟨resolveOr_written plain legalType (spelled.trans (Source.bare_writtenType _)) clean,
      fun _ => TypeScope.resolve_bare spelled known⟩

theorem method_declared (plain : scope.imports = []) {m : Method} (legal : m.isWritable = true)
    {body : Source.Stmt} {before : List DeclaredMember} {member : Member}
    (meant : member.bare = Synthesis.meantMethod m [body])
    (clean : (declareMember scope className before member).2 = []) :
    MethodDeclared scope m body (declareMember scope className before member).1 := by
  cases member with
  | field d => cases meant
  | constructor d => cases meant
  | method d =>
    obtain ⟨_, type, params, throws⟩ := Synthesis.isWritable_spec legal
    have parts := Member.method.inj meant
    obtain ⟨modifiers, returnType, name, ps, written, block, span⟩ := d
    simp only [MethodDecl.bare, MethodDecl.mk.injEq] at parts
    obtain ⟨rfl, returns, rfl, paramsMeant, throwsMeant, _⟩ := parts
    simp only [declareMember, List.append_eq_nil_iff] at clean
    obtain ⟨⟨⟨⟨_, paramsClean⟩, returnClean⟩, throwsClean⟩, _⟩ := clean
    have paramTypes : (ps.map (·.type)).map TypeName.bare = m.params.map Source.writtenType := by
      have types := congrArg (List.map (·.type)) paramsMeant
      rw [List.map_map, List.mapIdx_eq_zipIdx_map, List.map_map] at types
      rw [List.map_map]
      refine types.trans ?_
      conv_rhs => rw [← List.zipIdx_map_fst 0 m.params, List.map_map]
      rfl
    have throwTypes : written.map TypeName.bare = (m.throws.map .named).map Source.writtenType := by
      rw [throwsMeant, List.map_map]
      rfl
    have throwsNamed := resolveAll_written plain (by simpa [Source.isWritable] using throws)
      throwTypes throwsClean
    have returned := returnType_written plain type returns returnClean
    have named : (m.throws.map TypeRef.named).map TypeRef.canonicalName = m.throws := by
      rw [List.map_map]
      exact List.map_id _
    refine ⟨_, _, rfl, meant, ?_, returned.2⟩
    change Method.mk m.name _ (scope.resolveAll (ps.map (·.type))).1
      ((scope.resolveAll written).1.map (·.canonicalName)) (Synthesis.meantVisibility m) false = _
    rw [resolveAll_written plain params paramTypes paramsClean, throwsNamed, named]
    exact congrArg (Method.mk m.name · m.params m.throws (Synthesis.meantVisibility m) false)
      returned.1

/-- Methods that follow other members are declared as they are meant. -/
theorem methods_declared (plain : scope.imports = []) {methods : List Method}
    (legal : ∀ m ∈ methods, m.isWritable = true) {body : Method → Source.Stmt}
    {before ms : List Member}
    (meant : ms.map Member.bare = methods.map fun m => Synthesis.meantMethod m [body m])
    (clean : (declareMembers scope className (before ++ ms)).2 = []) :
    (declareMembers scope className before).2 = [] ∧
    ∃ members, (declareMembers scope className (before ++ ms)).1
        = (declareMembers scope className before).1 ++ members ∧
      List.Forall₂ (fun m member => MethodDeclared scope m (body m) member) methods members := by
  induction methods using List.reverseRecOn generalizing ms with
  | nil =>
    rw [List.map_nil, List.map_eq_nil_iff] at meant
    subst meant
    rw [List.append_nil] at clean ⊢
    exact ⟨clean, [], by simp, .nil⟩
  | append_singleton methods m ih =>
    rw [List.map_append, List.map_singleton] at meant
    obtain ⟨front, last, rfl, earlier, here⟩ := List.map_eq_append_iff.1 meant
    obtain ⟨member, rfl, bare⟩ := List.map_eq_singleton_iff.1 here
    rw [← List.append_assoc] at clean ⊢
    rw [declareMembers_concat_diagnostics, List.append_eq_nil_iff] at clean
    obtain ⟨start, members, same, declared⟩ :=
      ih (fun m member => legal m (List.mem_append_left _ member)) earlier clean.1
    have own := method_declared plain (legal m (by simp)) bare clean.2
    refine ⟨start, members ++ [_], ?_, List.rel_append declared (.cons own .nil)⟩
    rw [declareMembers_concat]
    conv_lhs => rw [same]
    rw [List.append_assoc, same]

end

/-! ### Bodies -/

theorem paramName_injective : Function.Injective paramName := by
  intro i j same
  have chars := congrArg String.toList same
  simp only [paramName, String.toList_append, Source.toList_toString, List.append_cancel_left_eq]
    at chars
  rw [← Nat.ofDigitChars_ten_toDigits (n := i), chars, Nat.ofDigitChars_ten_toDigits]

/-- The variables of parameters from a slot on, the last one first. -/
def paramVariables : Nat → List TypeRef → List (String × Variable)
  | _, [] => []
  | slot, t :: ts => paramVariables (slot + 1) ts ++ [(paramName slot, ⟨slot, t⟩)]

theorem find?_paramVariables_none {name : String} {slot : Nat} {types : List TypeRef}
    (other : ∀ i, slot ≤ i → name ≠ paramName i) :
    (paramVariables slot types).find? (·.1 == name) = none := by
  induction types generalizing slot with
  | nil => rfl
  | cons t types ih =>
    have here := other slot (Nat.le_refl _)
    rw [paramVariables, List.find?_append, ih fun i later => other i (Nat.le_of_succ_le later)]
    simpa using here.symm

theorem find?_paramVariables {slot i : Nat} {types : List TypeRef} {t : TypeRef}
    (there : types[i]? = some t) :
    (paramVariables slot types).find? (·.1 == paramName (slot + i))
      = some (paramName (slot + i), ⟨slot + i, t⟩) := by
  induction types generalizing slot i with
  | nil => cases there
  | cons u types ih =>
    rw [paramVariables, List.find?_append]
    cases i with
    | zero =>
      cases there
      rw [find?_paramVariables_none fun i later same => by
        have := paramName_injective same
        omega]
      simp
    | succ i =>
      rw [show slot + (i + 1) = slot + 1 + i by omega, ih there]
      rfl

theorem declare_scopes (name : String) (t : TypeRef) (span : Span) {st : BodyState}
    {scope : List (String × Variable)} (only : st.scopes = [scope]) :
    (Lower.declare name t span st).2.scopes = [(name, ⟨st.nextSlot, t⟩) :: scope] ∧
      (Lower.declare name t span st).2.nextSlot = st.nextSlot + 1 := by
  obtain ⟨ds, scopes, next⟩ := st
  cases only
  have either : Lower.declare name t span ⟨ds, [scope], next⟩
        = (next, ⟨ds, [(name, ⟨next, t⟩) :: scope], next + 1⟩) ∨
      ∃ d, Lower.declare name t span ⟨ds, [scope], next⟩
        = (next, ⟨ds ++ [d], [(name, ⟨next, t⟩) :: scope], next + 1⟩) := by
    unfold Lower.declare
    simp only [bind, StateT.bind, get, getThe, MonadStateOf.get, StateT.get, pure]
    split
    · exact .inr ⟨_, rfl⟩
    · exact .inl rfl
  rcases either with ran | ⟨d, ran⟩ <;> rw [ran] <;> exact ⟨rfl, rfl⟩

/-- Parameters come into scope under the names that they are given. -/
theorem declareParams_scopes {ps : List Param} {types : List TypeRef} {st : BodyState}
    {scope : List (String × Variable)} (length : ps.length = types.length)
    (names : ∀ i p, ps[i]? = some p → p.name = paramName (st.nextSlot + i))
    (only : st.scopes = [scope]) :
    (declareParams ps types st).2.scopes = [paramVariables st.nextSlot types ++ scope] ∧
      (declareParams ps types st).2.nextSlot = st.nextSlot + types.length := by
  induction ps generalizing types st scope with
  | nil =>
    obtain rfl := List.length_eq_zero_iff.1 length.symm
    exact ⟨only, rfl⟩
  | cons p ps ih =>
    cases types with
    | nil => cases length
    | cons t types =>
      obtain ⟨scopes, next⟩ := declare_scopes p.name t p.span only
      rw [declareParams]
      change (declareParams ps types (Lower.declare p.name t p.span st).2).2.scopes = _ ∧
        (declareParams ps types (Lower.declare p.name t p.span st).2).2.nextSlot = _
      obtain ⟨scopes', next'⟩ := ih (Nat.succ.inj length) (fun i q there => by
        rw [next, names (i + 1) q there, Nat.add_right_comm, Nat.add_assoc]) scopes
      rw [scopes', next', next, names 0 p rfl, paramVariables, List.append_assoc,
        List.singleton_append, List.length_cons]
      exact ⟨rfl, by omega⟩

/-! ### Names in scope -/

theorem ne_paramName {name : String} (first : name.toList.head? ≠ some 'p') (i : Nat) :
    name ≠ paramName i := by
  rintro rfl
  exact first (by rw [paramName, String.toList_append]; rfl)

theorem head_methodField (methods earlier : List Method) (m : Method) :
    (methodField methods earlier m).toList.head? = some 'm' := by
  unfold methodField
  dsimp only
  split <;> simp only [String.toList_append] <;> rfl

/-- The place of a method's field among all fields. -/
theorem getElem?_methodSlot {contract : Descriptor} (legal : Legal contract) {m : Method}
    (member : m ∈ contract.methods) :
    (fields contract)[methodSlot contract m]? = some (fieldOf contract m, Builtin.method) := by
  have found := (isName_fieldOf legal member).2
  rw [List.find?_eq_getElem?_findIdx] at found
  have place : contract.methods.idxOf m = (methodFields contract).findIdx (·.2 == m) := by
    rw [← methodFields_methods contract, List.idxOf, List.findIdx_map]
    rfl
  change ((methodFields contract).map fun f => (f.1, Builtin.method))[contract.methods.idxOf m]?
    = some (fieldOf contract m, Builtin.method)
  rw [place, List.getElem?_map, found]
  rfl

/-- The class has these fields, and the parameters are the only variables in scope. -/
structure InBody (contract : Descriptor) (params : List TypeRef) (cx : ClassContext)
    (st : BodyState) : Prop where
  infos : cx.fields = (fields contract).mapIdx fieldInfo
  distinct : ((fields contract).map (·.1)).Nodup
  scopes : st.scopes.flatten = paramVariables 0 params

section

variable {contract : Descriptor} {params : List TypeRef} {cx : ClassContext} {st : BodyState}
  {kind : BodyKind}

theorem InBody.field? (inBody : InBody contract params cx st) {slot : Nat} {f : String × String}
    (there : (fields contract)[slot]? = some f) : cx.field? f.1 = some (fieldInfo slot f) := by
  obtain ⟨inside, rfl⟩ := List.getElem?_eq_some_iff.1 there
  have names : ((fields contract).mapIdx fieldInfo).map (·.name) = (fields contract).map (·.1) := by
    rw [List.mapIdx_eq_zipIdx_map, List.map_map]
    conv_rhs => rw [← List.zipIdx_map_fst 0 (fields contract), List.map_map]
    rfl
  have member : fieldInfo slot (fields contract)[slot] ∈ (fields contract).mapIdx fieldInfo := by
    rw [List.mem_mapIdx]
    exact ⟨slot, inside, rfl⟩
  rw [ClassContext.field?, inBody.infos]
  exact find?_of_nodup (f := FieldInfo.name) (names ▸ inBody.distinct) member

theorem InBody.lowerExpr_field (inBody : InBody contract params cx st)
    (dynamic : kind ≠ .staticInit) {slot : Nat} {name type : String} {span : Span}
    (there : (fields contract)[slot]? = some (name, type))
    (first : name.toList.head? ≠ some 'p') :
    (lowerExpr cx kind (.name name span)).Settles st (.field slot, .ref (.named type)) := by
  refine Check.lowerExpr_field ?_ (inBody.field? there) rfl dynamic
  rw [inBody.scopes]
  exact find?_paramVariables_none fun i _ => ne_paramName first i

/-- What the parameters from a slot on are lowered to. -/
def paramCodes : Nat → List TypeRef → List Lowered
  | _, [] => []
  | slot, t :: ts => (.var slot, .of t) :: paramCodes (slot + 1) ts

theorem codes_paramCodes (slot : Nat) (types : List TypeRef) :
    (paramCodes slot types).map (·.1) = (List.range' slot types.length).map .var := by
  induction types generalizing slot with
  | nil => rfl
  | cons t types ih => exact congrArg _ (ih (slot + 1))

theorem mem_paramCodes {slot : Nat} {types : List TypeRef} {r : Lowered}
    (member : r ∈ paramCodes slot types) : ∃ t ∈ types, r.2 = .of t := by
  induction types generalizing slot with
  | nil => cases member
  | cons t types ih =>
    rcases List.mem_cons.1 member with rfl | member
    · exact ⟨t, List.mem_cons_self, rfl⟩
    · obtain ⟨u, there, same⟩ := ih member
      exact ⟨u, List.mem_cons_of_mem _ there, same⟩

theorem bareAll_names {es : List Source.Expr} {names : List String}
    (same : Source.Expr.bareAll es = names.map fun n => .name n .blank) :
    List.Forall₂ (fun e n => ∃ span, e = .name n span) es names := by
  induction names generalizing es with
  | nil =>
    cases es with
    | nil => exact .nil
    | cons e es => cases same
  | cons n names ih =>
    cases es with
    | nil => cases same
    | cons e es =>
      rw [Source.Expr.bareAll, List.map_cons] at same
      obtain ⟨first, rest⟩ := List.cons.inj same
      refine .cons ?_ (ih rest)
      cases e with
      | name n' span =>
        rw [Source.Expr.bare] at first
        cases first
        exact ⟨span, rfl⟩
      | _ => rw [Source.Expr.bare] at first; cases first

theorem params_lowered {slot : Nat} {types : List TypeRef} {es : List Source.Expr}
    (named : List.Forall₂ (fun e n => ∃ span, e = .name n span) es
      ((List.range' slot types.length).map paramName))
    (found : ∀ i t, types[i]? = some t →
      st.scopes.flatten.find? (·.1 == paramName (slot + i))
        = some (paramName (slot + i), ⟨slot + i, t⟩)) :
    List.Forall₂ (fun e r => (lowerExpr cx kind e).Settles st r) es (paramCodes slot types) := by
  induction types generalizing slot es with
  | nil =>
    cases named
    exact .nil
  | cons t types ih =>
    rw [List.length_cons, List.range'_succ, List.map_cons] at named
    cases named with
    | cons first rest =>
      obtain ⟨span, rfl⟩ := first
      refine .cons (lowerExpr_variable (found 0 t rfl)) (ih rest fun i u there => ?_)
      have later := found (i + 1) u there
      rwa [show slot + (i + 1) = slot + 1 + i by omega] at later

/-- A call of the handler with an interface, a method and further values. -/
theorem lowerCall_handler {a b : Argument} {rest : List Argument} {span : Span}
    {receiver : Code.Expr} (first : a.type = .ref (.named Builtin.class_))
    (second : b.type = .ref (.named Builtin.method)) (values : ∀ c ∈ rest, c.type ≠ .void) :
    (lowerCall cx (receiver, .ref (.named Builtin.handler)) "call" (a :: b :: rest) span).Settles st
      (.invoke receiver "call" ((a :: b :: rest).map (·.code)), .object) := by
  have itself : ∀ name, cx.isAssignable (.ref (.named name)) (.named name) = true := by
    intro name
    simp [ClassContext.isAssignable, ClassContext.isAssignableRef, ClassContext.isSubtype]
  have chosen : callee? cx (.ref (.named Builtin.handler)) "call" (a :: b :: rest)
      = some ([.named Builtin.class_, .named Builtin.method], .object) := by
    have typed : BuiltinMethod.ofType? Builtin.handler "call" (a :: b :: rest).length
        = some ⟨[.named Builtin.class_, .named Builtin.method], .object, true⟩ := by
      unfold BuiltinMethod.ofType?
      rw [if_neg (by decide), if_neg (by decide), if_neg (by decide), if_pos (by simp)]
    have builtin : BuiltinMethod.find? (.ref (.named Builtin.handler)) "call"
        (a :: b :: rest).length
        = some ⟨[.named Builtin.class_, .named Builtin.method], .object, true⟩ := by
      change (BuiltinMethod.ofType? Builtin.handler "call" _).or _ = _
      rw [typed]
      rfl
    unfold callee?
    rw [builtin]
    change ((some _ : Option BuiltinMethod).bind _) = _
    simp [accepts, first, second, itself]
    rfl
  have fitted : (coerceArgs cx [.named Builtin.class_, .named Builtin.method]
      (a :: b :: rest)).Settles st ((a :: b :: rest).map (·.code)) := by
    rw [coerceArgs, first]
    refine .bind (coerce_same _ (itself _)) (.bind ?_ (.pure _))
    rw [coerceArgs, second]
    exact .bind (coerce_same _ (itself _)) (.bind (coerceArgs_rest values) (.pure _))
  unfold lowerCall
  dsimp only
  rw [chosen]
  exact .bind fitted (.pure _)

theorem call_lowered (inBody : InBody contract params cx st) (dynamic : kind ≠ .staticInit)
    (novoid : ∀ t ∈ params, t ≠ .void) {slot : Nat} {field : String}
    (there : (fields contract)[slot]? = some (field, Builtin.method))
    (first : field.toList.head? = some 'm') {e : Source.Expr}
    (meant : e.bare = callExpr field params.length) :
    (lowerExpr cx kind e).Settles st (callCode slot params.length, .object) := by
  cases e with
  | call target name es span =>
    rw [Source.Expr.bare] at meant
    obtain ⟨receiver, rfl, named, _⟩ := Source.Expr.call.inj meant
    cases target with
    | name n targetSpan =>
      rw [Source.Expr.bare] at receiver
      cases receiver
      have names := bareAll_names named
      rw [arguments, List.range_eq_range'] at names
      obtain ⟨_, _, ⟨aSpan, rfl⟩, behind, rfl⟩ := List.forall₂_cons_right_iff.1 names
      obtain ⟨_, es, ⟨bSpan, rfl⟩, others, rfl⟩ := List.forall₂_cons_right_iff.1 behind
      have results : List.Forall₂ (fun e r => (lowerExpr cx kind e).Settles st r)
          (.name interfaceField aSpan :: .name field bSpan :: es)
          ((.field 1, .ref (.named Builtin.class_)) :: (.field slot, .ref (.named Builtin.method))
            :: paramCodes 0 params) := by
        refine .cons (inBody.lowerExpr_field dynamic rfl (by decide)) (.cons ?_ ?_)
        · exact inBody.lowerExpr_field dynamic there (by rw [first]; decide)
        · refine params_lowered others fun i t at_ => ?_
          rw [inBody.scopes]
          exact find?_paramVariables at_
      obtain ⟨args, lowered, same⟩ := lowerArgs_settles results
      obtain ⟨a, _, rfl, first, same⟩ := List.map_eq_cons_iff.1 same
      obtain ⟨b, rest, rfl, second, same⟩ := List.map_eq_cons_iff.1 same
      obtain ⟨codeA, typeA⟩ := Prod.mk.inj first
      obtain ⟨codeB, typeB⟩ := Prod.mk.inj second
      have values : ∀ c ∈ rest, c.type ≠ .void := by
        intro c member
        have there : (c.code, c.type) ∈ paramCodes 0 params := by
          rw [← same]
          exact List.mem_map_of_mem member
        obtain ⟨t, declared, type⟩ := mem_paramCodes there
        rw [show c.type = .of t from type]
        cases t with
        | void => exact absurd rfl (novoid _ declared)
        | _ => exact nofun
      have codes : rest.map (·.code) = (List.range params.length).map .var := by
        rw [List.range_eq_range', ← codes_paramCodes, ← same, List.map_map]
        rfl
      have receiver : (lowerExpr cx kind (.name handlerField targetSpan)).Settles st
          (.field 0, .ref (.named Builtin.handler)) :=
        inBody.lowerExpr_field dynamic rfl (by decide)
      rw [lowerExpr]
      refine .bind receiver (.bind lowered ?_)
      rw [callCode, ← codes, ← codeA, ← codeB]
      exact lowerCall_handler typeA typeB values
    | _ => rw [Source.Expr.bare] at receiver; cases receiver
  | _ => rw [Source.Expr.bare] at meant; cases meant

/-- The statement of a delegating method becomes the answer of its call. -/
theorem answer_lowered {type : TypeRef} (legal : type = .void ∨ Source.isWritable type = true)
    (known : type ≠ .void → cx.scope.resolve (Source.writtenType type) = .ok type)
    {call : Source.Expr} {code : Code.Expr}
    (lowered : ∀ e : Source.Expr, e.bare = call →
      (lowerExpr cx (.method type) e).Settles st (code, .object))
    {s : Source.Stmt} (meant : s.bare = answerStmt type call) :
    (lowerStmt cx (.method type) s).Settles st [answerCode type code] := by
  have given : type ≠ .void → s.bare = .ret (some (if type == .object then call
        else .cast (Source.writtenType type) call .blank)) .blank →
      (lowerStmt cx (.method type) s).Settles st
        [.ret (some (if type == .object then code else .cast type .check code))] := by
    intro novoid meant
    have writable := legal.resolve_left novoid
    cases s with
    | ret value span =>
      rw [Source.Stmt.bare] at meant
      obtain ⟨returned, _⟩ := Source.Stmt.ret.inj meant
      obtain ⟨e, rfl, shape⟩ := Option.map_eq_some_iff.1 returned
      have fitted : (lowerAs cx (.method type) e type).Settles st
          (if type == .object then code else .cast type .check code) := by
        by_cases isObject : type = .object
        · subst isObject
          refine .bind (lowered e shape) ?_
          exact coerce_same _ (isAssignable_self writable)
        · rw [if_neg (by simpa using isObject)] at shape ⊢
          cases e with
          | cast w operand castSpan =>
            rw [Source.Expr.bare] at shape
            obtain ⟨written, operand_, _⟩ := Source.Expr.cast.inj shape
            have resolved : cx.scope.resolve w = .ok type := by
              refine TypeScope.resolve_bare ?_ (known novoid)
              rw [Source.bare_writtenType, written]
            refine .bind (a := (.cast type .check code, .of type)) ?_ (coerce_cast writable _ _)
            rw [lowerExpr, resolved]
            refine .bind (lowered operand operand_) ?_
            unfold lowerCast
            cases type <;> exact .pure _
          | _ => rw [Source.Expr.bare] at shape; cases shape
      have returned : (lowerReturn cx (.method type) (some e) span).Settles st
          (some (if type == .object then code else .cast type .check code)) := by
        cases type with
        | void => exact absurd rfl novoid
        | _ => exact .bind fitted (.pure _)
      rw [lowerStmt]
      exact .bind returned (.pure _)
    | _ => rw [Source.Stmt.bare] at meant; cases meant
  cases type with
  | void =>
    cases s with
    | expr e =>
      rw [Source.Stmt.bare] at meant
      rw [lowerStmt]
      exact .bind (lowered e (Source.Stmt.expr.inj meant)) (.pure _)
    | _ => rw [Source.Stmt.bare] at meant; cases meant
  | _ => exact given nofun meant

end

/-! ### The class -/

theorem bare_bodyStmt (contract : Descriptor) (m : Method) :
    (bodyStmt contract m).bare = bodyStmt contract m := by
  have names : ∀ ns : List String,
      Source.Expr.bareAll (ns.map fun n => .name n .blank) = ns.map fun n => .name n .blank := by
    intro ns
    induction ns with
    | nil => rfl
    | cons n ns ih => rw [List.map_cons, Source.Expr.bareAll, ih, Source.Expr.bare]
  have call : (callExpr (fieldOf contract m) m.arity).bare
      = callExpr (fieldOf contract m) m.arity := by
    rw [callExpr, Source.Expr.bare, Source.Expr.bare, names]
  have answer : ∀ type, (answerStmt type (callExpr (fieldOf contract m) m.arity)).bare
      = answerStmt type (callExpr (fieldOf contract m) m.arity) := by
    have given : ∀ type : TypeRef, (if type == .object then callExpr (fieldOf contract m) m.arity
        else .cast (Source.writtenType type) (callExpr (fieldOf contract m) m.arity) .blank).bare
        = if type == .object then callExpr (fieldOf contract m) m.arity
          else .cast (Source.writtenType type) (callExpr (fieldOf contract m) m.arity) .blank := by
      intro type
      split
      · exact call
      · rw [Source.Expr.bare, call, Source.bare_writtenType]
    intro type
    cases type with
    | void => rw [answerStmt, Source.Stmt.bare, call]
    | _ => exact congrArg (fun e => Source.Stmt.ret (some e) .blank) (given _)
  exact answer m.returnType

theorem fieldOf_first {contract : Descriptor} (legal : Legal contract) {m : Method}
    (member : m ∈ contract.methods) : (fieldOf contract m).toList.head? = some 'm' := by
  obtain ⟨earlier, same⟩ :=
    methodField_of_mem (List.mem_of_find?_eq_some (isName_fieldOf legal member).2)
  dsimp only at same
  rw [same]
  exact head_methodField _ _ _

section

variable {contract : Descriptor} {cx : ClassContext}

theorem body_lowered (legal : Legal contract) {m : Method}
    (abstract : m ∈ contract.abstractMethods)
    (known : m.returnType ≠ .void →
      cx.scope.resolve (Source.writtenType m.returnType) = .ok m.returnType)
    {s : Source.Stmt} (bare : s.bare = bodyStmt contract m) {st : BodyState}
    (inBody : InBody contract m.params cx st) :
    (lowerStmts cx (.method m.returnType) [s]).Settles st
      [answerCode m.returnType (callCode (methodSlot contract m) m.arity)] := by
  have member := mem_of_mem_abstractMethods abstract
  obtain ⟨_, type, writable, _⟩ := Synthesis.isWritable_spec (legal.methods m abstract)
  have novoid : ∀ t ∈ m.params, t ≠ .void := by
    rintro t there rfl
    cases writable _ there
  have dynamic : BodyKind.method m.returnType ≠ .staticInit := nofun
  have called : ∀ e : Source.Expr, e.bare = callExpr (fieldOf contract m) m.arity →
      (lowerExpr cx (.method m.returnType) e).Settles st
        (callCode (methodSlot contract m) m.arity, .object) := fun e bare =>
    call_lowered inBody dynamic novoid (getElem?_methodSlot legal member)
      (fieldOf_first legal member) bare
  have lowered : (lowerStmt cx (.method m.returnType) s).Settles st
      [answerCode m.returnType (callCode (methodSlot contract m) m.arity)] :=
    answer_lowered type known called bare
  rw [lowerStmts]
  exact .bind lowered (.bind (by rw [lowerStmts]; exact .pure _) (.pure _))

theorem method_compiled (legal : Legal contract)
    (infos : cx.fields = (fields contract).mapIdx fieldInfo)
    (distinct : ((fields contract).map (·.1)).Nodup) {m : Method}
    (abstract : m ∈ contract.abstractMethods) {member : DeclaredMember}
    (declared : MethodDeclared cx.scope m (bodyStmt contract m) member) :
    (compileMember cx member).1 = .method (methodCode contract m) := by
  obtain ⟨decl, ⟨method, owner, isStatic⟩, rfl, meant, rfl, known⟩ := declared
  obtain ⟨modifiers, returnType, name, params, throws, ⟨statements, blockSpan⟩, span⟩ := decl
  have parts := Member.method.inj meant
  simp only [MethodDecl.bare, MethodDecl.mk.injEq] at parts
  obtain ⟨_, _, _, paramsMeant, _, block, _⟩ := parts
  obtain ⟨body, _⟩ := Source.Block.mk.inj block
  obtain ⟨s, rfl, bare⟩ : ∃ s, statements = [s] ∧ s.bare = bodyStmt contract m := by
    cases statements with
    | nil => cases body
    | cons s rest =>
      obtain ⟨first, rest_⟩ := List.cons.inj body
      cases rest with
      | nil => exact ⟨s, rfl, first.trans (bare_bodyStmt contract m)⟩
      | cons s' rest => cases rest_
  have length : params.length = m.params.length := by
    simpa using congrArg List.length paramsMeant
  have names : ∀ i p, params[i]? = some p → p.name = paramName (0 + i) := by
    intro i p there
    have named := congrArg (fun ps : List Param => (ps[i]?).map (·.name)) paramsMeant
    simp only [List.getElem?_map, there, List.getElem?_mapIdx, Option.map_some] at named
    obtain ⟨inside, _⟩ := List.getElem?_eq_some_iff.1 there
    rw [List.getElem?_eq_getElem (length ▸ inside)] at named
    rw [Nat.zero_add]
    exact Option.some.inj named
  have start : ({} : BodyState).scopes = [[]] := rfl
  obtain ⟨scopes, next⟩ := declareParams_scopes length names start
  generalize declared : (declareParams params m.params {}).2 = st at scopes next
  have inBody : InBody contract m.params cx { st with scopes := [] :: st.scopes } := by
    refine ⟨infos, distinct, ?_⟩
    dsimp only
    rw [scopes]
    simp
  have answered := body_lowered legal abstract known bare inBody
  have ran : lowerBody (do
        declareParams params m.params
        Lower.inScope (lowerStmts cx (.method m.returnType) [s]))
      = ([answerCode m.returnType (callCode (methodSlot contract m) m.arity)], st) := by
    change Lower.inScope (lowerStmts cx (.method m.returnType) [s])
      (declareParams params m.params {}).2 = _
    rw [declared]
    change ((lowerStmts cx (.method m.returnType) [s] { st with scopes := [] :: st.scopes }).1,
      { (lowerStmts cx (.method m.returnType) [s] { st with scopes := [] :: st.scopes }).2 with
        scopes := (lowerStmts cx (.method m.returnType) [s]
          { st with scopes := [] :: st.scopes }).2.scopes.drop 1 }) = _
    rw [show lowerStmts cx (.method m.returnType) [s] { st with scopes := [] :: st.scopes } = _
      from answered]
    rfl
  rw [compileMember, compileMethod]
  dsimp only
  rw [ran]
  dsimp only
  rw [next, methodCode]
  congr 2
  exact Nat.zero_add _

end

theorem interfaces_declared {scope : TypeScope} (plain : scope.imports = []) {name : String}
    (legal : Source.isQualifiedName name = true) {written : List TypeName}
    (meant : written.map TypeName.bare = [Synthesis.named name])
    (clean : (interfacesOf scope [] written).2 = []) :
    (interfacesOf scope [] written).1 = [name] := by
  obtain ⟨w, rfl, bare⟩ := List.map_eq_singleton_iff.1 meant
  unfold interfacesOf at clean ⊢
  dsimp only at clean ⊢
  cases found : scope.resolve w with
  | error d =>
    rw [found] at clean
    cases clean
  | ok type =>
    obtain rfl := scope.resolve_written (t := .named name) plain legal bare found
    rw [found] at clean
    dsimp only at clean ⊢
    split at clean
    · cases clean
    · rename_i isInterface
      rw [if_neg isInterface, if_neg (by simp)]
      rfl

theorem unit_eq {contract : Descriptor} (isInterface : contract.isInterface = true) :
    unit contract = ⟨[], { visibility := some .visible }, classNameFor contract.name, none,
      [Synthesis.named contract.name], ((fields contract).map fun f => (fieldMember f).bare)
        ++ contract.abstractMethods.map fun m => Synthesis.meantMethod m [bodyStmt contract m],
      .blank⟩ := by
  have superclass : Synthesis.meantSuperclass .delegating contract = none := by
    rw [Synthesis.meantSuperclass, isInterface, if_pos rfl]
    rfl
  have once : [contract.name].eraseDups = [contract.name] := rfl
  have interfaces : Synthesis.meantInterfaces .delegating contract = [contract.name] := by
    rw [Synthesis.meantInterfaces, isInterface, if_pos rfl]
    change Synthesis.ascending [contract.name].eraseDups = _
    rw [once, Synthesis.ascending, List.mergeSort_singleton]
  rw [unit, Synthesis.meantUnit, superclass, interfaces, List.map_map, Option.map_none,
    Option.map_none, Option.toList_none, List.append_nil]
  rfl

theorem types_qualified {contract : Descriptor} :
    ∀ f ∈ fields contract, Source.isQualifiedName f.2 = true := by
  have types : ∀ t ∈ [Builtin.handler, Builtin.class_, Builtin.method],
      Source.isQualifiedName t = true := by
    decide +kernel
  intro f member
  rcases List.mem_cons.1 member with rfl | member
  · exact types _ (by simp)
  · rcases List.mem_cons.1 member with rfl | member
    · exact types _ (by simp)
    · obtain ⟨given, _, rfl⟩ := List.mem_map.1 member
      exact types _ (by simp)

theorem methods_compiled {contract : Descriptor} (legal : Legal contract) {cx : ClassContext}
    (infos : cx.fields = (fields contract).mapIdx fieldInfo)
    (distinct : ((fields contract).map (·.1)).Nodup) {members : List DeclaredMember}
    (declared : List.Forall₂ (fun m member =>
      MethodDeclared cx.scope m (bodyStmt contract m) member) contract.abstractMethods members) :
    members.map (fun m => (compileMember cx m).1)
      = contract.abstractMethods.map fun m => .method (methodCode contract m) := by
  have each : List.Forall₂ (fun m member => (compileMember cx member).1
      = .method (methodCode contract m)) contract.abstractMethods members := by
    have both := (List.forall₂_and_left _ _).2 ⟨fun m there => there, declared⟩
    exact both.imp fun m member h => method_compiled legal infos distinct h.1 h.2
  clear declared
  generalize contract.abstractMethods = methods at each
  induction each with
  | nil => rfl
  | cons first _ ih => rw [List.map_cons, List.map_cons, first, ih]

/-- The source of a delegating class is compiled to the code of the class. It is not compiled if two
fields have one name. -/
theorem code_of_compileUnit {contract : Descriptor} (legal : Legal contract)
    (isInterface : contract.isInterface = true) {read : Source.CompilationUnit}
    (same : read.bare = unit contract) {table : TypeTable} {c : Code.Class}
    (compiled : compileUnit table read = .ok c) : c = code contract ∧ Distinct contract := by
  have accepted := accepted_of_compileUnit compiled
  rw [unit_eq isInterface] at same
  obtain ⟨imports, decl⟩ := Source.CompilationUnit.mk.inj same
  obtain ⟨modifiers, name, superclass, interfaces, members, _⟩ := Source.ClassDecl.mk.inj decl
  obtain ⟨fieldMembers, methodMembers, split, fieldsMeant, methodsMeant⟩ :=
    List.map_eq_append_iff.1 members
  have plain : (contextOf table read).scope.imports = [] := by
    rw [contextOf_scope, List.map_eq_nil_iff.1 imports]
    rfl
  have clean : (ClassContext.declare (contextOf table read).scope read.decl).2 = [] :=
    accepted.declared_clean
  simp only [ClassContext.declare, List.append_eq_nil_iff] at clean
  obtain ⟨⟨_, interfacesClean⟩, membersClean⟩ := clean
  rw [split] at membersClean
  obtain ⟨fieldsClean, methods, declared, implemented⟩ :=
    methods_declared plain legal.methods methodsMeant membersClean
  have own := fields_declared plain types_qualified fieldsMeant fieldsClean
  have all : (contextOf table read).members
      = (declareMembers (contextOf table read).scope read.decl.name fieldMembers).1 ++ methods := by
    rw [contextOf_members, split, declared]
  have noFields : methods.filterMap (·.field?) = [] := by
    rw [List.filterMap_eq_nil_iff]
    intro member there
    obtain ⟨m, decl, info, rfl, _⟩ := exists_of_forall₂ implemented there
    rfl
  have infos : (contextOf table read).fields = (fields contract).mapIdx fieldInfo := by
    rw [ClassContext.fields, all, List.filterMap_append, own.infos, noFields, List.append_nil]
  have codes : ((contextOf table read).members.map fun m =>
        (compileMember (contextOf table read) m).1)
      = ((fields contract).map fun f => .field false (fieldCode f))
        ++ contract.abstractMethods.map fun m => .method (methodCode contract m) := by
    rw [all, List.map_append, own.codes,
      methods_compiled legal infos own.distinct implemented]
  have extended : (contextOf table read).superclass = Builtin.object := by
    rw [contextOf_superclass, Option.map_eq_none_iff.1 superclass]
  have implements : (contextOf table read).interfaces = [contract.name] :=
    interfaces_declared plain legal.name interfaces interfacesClean
  refine ⟨?_, own.distinct⟩
  rw [accepted.assembled, codes, assemble, extended, implements, contextOf_name,
    show read.decl.name = _ from name, show read.decl.modifiers = _ from modifiers, code]
  simp [List.filterMap_map, CompiledMember.instanceField?,
    CompiledMember.staticField?, CompiledMember.constructor?, CompiledMember.method?]
  rfl

end Delegation

end Classwright

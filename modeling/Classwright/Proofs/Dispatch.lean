import Classwright.Machine.Invoke
import Classwright.Proofs.Keeping
import Classwright.Proofs.Occurrences

/-!
# What calls give

The checker chooses a method by the static types of the arguments, a run chooses one by their values
and asks the class of the receiver first. `World.choice?` is what the run chooses, and a call serves
if all that runs may choose for it gives values of the type that the checker has given the call.
`Calls.Sound` is what bodies rely on: calls keep the store typed and give what their choice
declares, and so does the making of objects.
-/

namespace Classwright

open Check

/-! ### What the checker chooses -/

/-- Parameters and return type of the method that a call on `super` runs, as the checker sees it. -/
def Check.superCallee? (cx : ClassContext) (name : String) (args : List Argument) :
    Option (List TypeRef × StaticType) :=
  match select? cx cx.inheritedMethods name args with
  | some m => if m.method.isAbstract then none else some (m.method.params, .of m.method.returnType)
  | none => (BuiltinMethod.ofAny? name args.length).map fun b => (b.params, .of b.returnType)

namespace Check.Call

/-- The method of a class or interface that the checker chooses; none if it is builtin. -/
def selected? (cx : ClassContext) (call : Call) : Option OwnedMethod :=
  match call.receiver with
  | some type =>
    if Builtin.all.contains type then none
    else select? cx (cx.methodsOf type) call.name call.args
  | none => select? cx cx.inheritedMethods call.name call.args

/-- Parameters and return type of what the checker chooses. -/
def callee? (cx : ClassContext) (call : Call) : Option (List TypeRef × StaticType) :=
  match call.receiver with
  | some type => Check.callee? cx (.ref (.named type)) call.name call.args
  | none => superCallee? cx call.name call.args

end Check.Call

/-! ### What a run chooses -/

/-- What runs for a call on an object: a method of its class, native code, for a method that the
host type declares or for one that it does not, or a builtin method. -/
inductive Choice
  | own (m : Code.Method)
  | native (host : Descriptor) (declared : Option Method)
  | builtin (b : BuiltinMethod)

/-- The type of what is chosen. Native code for a method that is not declared may give anything. -/
def Choice.type : Choice → StaticType
  | own m => if m.returnType.isVoid then .null else .of m.returnType
  | native _ declared => (declared.map fun m => StaticType.of m.returnType).getD .object
  | builtin b => .of b.returnType

namespace World

/-- What a call that is passed on above a class runs. -/
def choiceAbove? (W : World) (c : LoadedClass) (name : String) (args : List Value) :
    Option Choice :=
  match W.store.inheritedNative? c name args.length with
  | some (host, _) =>
    if host.findMethods name args.length = [] then some (.native host none)
    else (host.taking W.tables name args).map fun m => .native host (some m)
  | none => (BuiltinMethod.ofAny? name args.length).map .builtin

/-- What a call on an object of the class runs. -/
def choice? (W : World) (c : LoadedClass) (name : String) (args : List Value) : Option Choice :=
  match c.findMethod W.tables name args with
  | .ok (some (m, _)) => some (.own m)
  | .ok none => W.choiceAbove? c name args
  | .error _ => none

/-- Every value of the one type is one of the other. -/
def Within (W : World) (type target : StaticType) : Prop :=
  ∀ v, W.Knows v → type.Holds W.tables v → target.Holds W.tables v

/-- What may be passed to a parameter for an argument of the static type. Only for a primitive
parameter the argument is converted. -/
structure Passes (W : World) (type : StaticType) (target : TypeRef) (v : Value) : Prop where
  known : W.Knows v
  ofType : v.isInstanceOf W.tables target = true
  asWritten : (∀ kind, target ≠ .primitive kind) → type.Holds W.tables v

/-- What may be passed to parameters and behind them for arguments of the static types. -/
inductive Passed (W : World) : List TypeRef → List StaticType → List Value → Prop
  | nil {params : List TypeRef} : Passed W params [] []
  | more {type : StaticType} {types : List StaticType} {v : Value} {vs : List Value} :
      W.Knows v → type.Holds W.tables v → Passed W [] types vs →
      Passed W [] (type :: types) (v :: vs)
  | cons {param : TypeRef} {params : List TypeRef} {type : StaticType} {types : List StaticType}
      {v : Value} {vs : List Value} : W.Passes type param v → Passed W params types vs →
      Passed W (param :: params) (type :: types) (v :: vs)

/-- What runs may choose for a call in the class of this number, and the class that they choose it
for: that of any object of the receiver's type, or for a call on `super` the class itself. -/
inductive Picks (W : World) (n : Nat) (call : Call) (params : List TypeRef) :
    LoadedClass → Choice → Prop
  | on {type : String} {m : Nat} {c : LoadedClass} {args : List Value} {choice : Choice} :
      call.receiver = some type → W.classes m = some c → c.isSubtypeOf W.tables type = true →
      W.Passed params (call.args.map (·.type)) args → W.choice? c call.name args = some choice →
      Picks W n call params c choice
  | above {c : LoadedClass} {args : List Value} {choice : Choice} :
      call.receiver = none → W.classes n = some c →
      W.Passed params (call.args.map (·.type)) args →
      W.choiceAbove? c call.name args = some choice → Picks W n call params c choice

/-- All that runs may choose for the call gives values of the type that the checker has given it. -/
def Serves (W : World) (n : Nat) (call : Call) : Prop :=
  ∀ params result, call.callee? (W.context n) = some (params, result) →
    ∀ c choice, W.Picks n call params c choice → W.Within choice.type result

/-- All calls in the classes serve. -/
def Serving (W : World) : Prop :=
  ∀ n c, W.classes n = some c → ∀ call ∈ W.calls n, W.Serves n call

/-- The value is what a call of the method of the receiver may give. -/
def Answers (W : World) (receiver : Value) (name : String) (args : List Value) (v : Value) : Prop :=
  match receiver with
  | .null => False
  | .object o =>
    ∃ choice, W.choice? o.cls name args = some choice ∧ choice.type.Holds W.tables v
  | receiver => ∀ t b, receiver.isInstanceOf W.tables t = true →
    BuiltinMethod.find? (.ref t) name args.length = some b →
      (StaticType.of b.returnType).Holds W.tables v

end World

/-- Calls keep the store typed and give what their choice of the method declares. -/
def Invoke.Sound (W : World) (call : Invoke) : Prop :=
  ∀ receiver name args, W.Knows receiver → W.KnowsAll args →
    Run.Keeps W (call receiver name args)
      (fun v => W.Knows v ∧ W.Answers receiver name args v)

/-- So does the making of objects of the classes. -/
structure Calls.Sound (W : World) (calls : Calls) : Prop where
  invoke : Invoke.Sound W calls.invoke
  instantiate : ∀ c, W.classes c.id = some c →
    Run.Keeps W (calls.instantiate c) fun o => o.cls = c

variable {W : World}

/-- The method that a class finds is one of its own that takes the arguments. -/
theorem LoadedClass.findMethod_some {tables : Tables} {c : LoadedClass} {name : String}
    {args taken : List Value} {m : Code.Method}
    (found : c.findMethod tables name args = .ok (some (m, taken))) :
    m ∈ c.code.methods ∧ m.name = name ∧ m.params.length = args.length ∧
      Value.coerceAll tables m.params args = some taken := by
  unfold LoadedClass.findMethod at found
  split at found
  · cases found
  · rename_i first others some_
    split at found
    · rename_i pair accepted
      cases found
      obtain ⟨m', member, made⟩ := List.exists_of_findSome?_eq_some accepted
      obtain ⟨taken', made, same⟩ := Option.map_eq_some_iff.1 made
      cases same
      rw [← some_, List.mem_filter, Bool.and_eq_true, beq_iff_eq, beq_iff_eq] at member
      exact ⟨member.1, member.2.1, member.2.2, made⟩
    · cases found

namespace World

theorem Fit.known {types : List TypeRef} {values : List Value} (h : W.Fit types values) :
    W.KnowsAll values := by
  induction h with
  | nil => trivial
  | cons head _ ih => exact ⟨head.2, ih⟩

theorem Passed.known {params : List TypeRef} {types : List StaticType} {args : List Value}
    (passed : W.Passed params types args) : W.KnowsAll args := by
  induction passed with
  | nil => trivial
  | more known _ _ ih => exact ⟨known, ih⟩
  | cons first _ ih => exact ⟨first.known, ih⟩

theorem Passed.length_eq {params : List TypeRef} {types : List StaticType} {args : List Value}
    (passed : W.Passed params types args) : args.length = types.length := by
  induction passed with
  | nil => rfl
  | more _ _ _ ih => rw [List.length_cons, List.length_cons, ih]
  | cons _ _ ih => rw [List.length_cons, List.length_cons, ih]

/-- Converted arguments are of the parameter types. -/
theorem fit_of_coerceAll {types : List TypeRef} {values taken : List Value}
    (known : W.KnowsAll values) (made : Value.coerceAll W.tables types values = some taken) :
    W.Fit types taken := by
  induction types generalizing values taken with
  | nil =>
    cases values with
    | nil => cases made; exact .nil
    | cons v vs => cases made
  | cons t ts ih =>
    cases values with
    | nil => cases made
    | cons v vs =>
      simp only [Value.coerceAll, Option.bind_eq_bind, Option.bind_eq_some_iff,
        Option.pure_def, Option.some.injEq] at made
      obtain ⟨w, first, ws, rest, rfl⟩ := made
      exact .cons ⟨Value.isInstanceOf_of_coerceTo first, knows_of_coerceTo known.1 first⟩
        (ih known.2 rest)

end World

namespace TypeTable

theorem lookup_of_mem_chain {t : TypeTable} {visited : List String} {link : Option String}
    {d : Descriptor} (met : d ∈ t.chain visited link) : t.lookup d.name = some d := by
  induction visited, link using TypeTable.chain.induct t with
  | case1 visited => simp [chain] at met
  | case2 visited name hv =>
    rw [chain, dif_pos hv] at met
    cases met
  | case3 visited name hv unknown =>
    rw [chain, dif_neg hv] at met
    split at met
    · cases met
    · rename_i found
      rw [unknown] at found
      cases found
  | case4 visited name hv e found _ ih =>
    rw [chain, dif_neg hv] at met
    split at met
    · cases met
    · rename_i e' found'
      rw [found] at found'
      cases found'
      rcases List.mem_cons.1 met with rfl | met
      · rw [name_of_lookup found]
        exact found
      · exact ih met

/-- The types above a class are what their names are declared as. -/
theorem lookup_of_mem_lineage {t : TypeTable} {superclass : String} {interfaces : List String}
    {d : Descriptor} (met : d ∈ t.lineage superclass interfaces) :
    t.lookup d.name = some d := by
  simp only [lineage, List.mem_append, Option.mem_toList] at met
  rcases met with (met | met) | met
  · rw [name_of_lookup met]
    exact met
  · exact lookup_of_mem_chain met
  · exact (leads_of_mem_walk met).1

theorem mem_types_of_mem_lineage {t : TypeTable} {superclass : String} {interfaces : List String}
    {d : Descriptor} (met : d ∈ t.lineage superclass interfaces) : d ∈ t.types :=
  mem_of_lookup (lookup_of_mem_lineage met)

end TypeTable

/-! ### Builtin methods -/

/-- No builtin type has a method of its own that every value answers. -/
theorem Check.BuiltinMethod.ofType?_of_ofAny? {typeName name : String} {arity : Nat}
    {b : BuiltinMethod} (found : BuiltinMethod.ofAny? name arity = some b) :
    BuiltinMethod.ofType? typeName name arity = none := by
  have notCall : name ≠ "call" := by
    rintro rfl
    cases found
  unfold BuiltinMethod.ofAny? at found
  unfold BuiltinMethod.ofType?
  split at found
  case h_4 => cases found
  all_goals
    split
    · rfl
    · split
      · rfl
      · split
        · rfl
        · rw [if_neg fun h => notCall h.2.1]

namespace World

/-- The builtin method that the checker finds for a value is one of its kind or of every value. -/
theorem find?_of_isInstanceOf {v : Value} (notObject : ∀ o, v ≠ .object o) (notNull : v ≠ .null)
    {t : TypeRef} {name : String} {n : Nat} {b : BuiltinMethod}
    (ofType : v.isInstanceOf W.tables t = true)
    (found : BuiltinMethod.find? (.ref t) name n = some b) :
    BuiltinMethod.ofType? v.kindName name n = some b ∨ BuiltinMethod.ofAny? name n = some b := by
  cases t with
  | named typeName =>
    rw [Value.isInstanceOf_named, Bool.or_eq_true, beq_iff_eq] at ofType
    simp only [BuiltinMethod.find?, StaticType.named?, Option.bind_some,
      Option.or_eq_some_iff] at found
    rcases found with found | ⟨_, found⟩
    · rcases ofType with rfl | href
      · cases found
      · cases v <;> simp only [Value.isReference, beq_iff_eq, Bool.false_eq_true] at href
        · exact absurd rfl notNull
        · subst href
          exact .inl found
        · exact absurd rfl (notObject _)
        all_goals
          subst href
          exact .inl found
    · exact .inr found
  | _ => exact .inr found

/-- What a text answers is of the type that the checker takes it for. -/
theorem holds_of_ofText {s name : String} {args : List Value} {v : Value}
    (made : Builtin.ofText s name args = some (.ok v)) :
    W.Knows v ∧ BuiltinMethod.ofAny? name args.length = none ∧
      ∃ b, BuiltinMethod.ofType? Builtin.string name args.length = some b
        ∧ (StaticType.of b.returnType).Holds W.tables v := by
  unfold Builtin.ofText at made
  split at made
  case h_6 other =>
    cases text : Builtin.textArgument "concat" other with
    | error f => simp [text, Except.map] at made
    | ok t =>
      simp only [text, Except.map, Option.some.injEq, Except.ok.injEq] at made
      subst made
      exact ⟨trivial, rfl, _, rfl, rfl⟩
  case h_7 other =>
    cases text : Builtin.textArgument "contains" other with
    | error f => simp [text, Except.map] at made
    | ok t =>
      simp only [text, Except.map, Option.some.injEq, Except.ok.injEq] at made
      subst made
      exact ⟨trivial, rfl, _, rfl, rfl⟩
  case h_8 => cases made
  all_goals
    cases made
    exact ⟨trivial, rfl, _, rfl, rfl⟩

/-- What a type answers. -/
theorem holds_of_ofType {d : Descriptor} {name : String} {args : List Value} {v : Value}
    (made : Builtin.ofType d name args = some v) :
    W.Knows v ∧ BuiltinMethod.ofAny? name args.length = none ∧
      ∃ b, BuiltinMethod.ofType? Builtin.class_ name args.length = some b
        ∧ (StaticType.of b.returnType).Holds W.tables v := by
  unfold Builtin.ofType at made
  split at made
  case h_3 => cases made
  all_goals
    cases made
    exact ⟨trivial, rfl, _, rfl, rfl⟩

/-- What a method answers. -/
theorem holds_of_ofMethod {m : Method} {name : String} {args : List Value} {v : Value}
    (made : Builtin.ofMethod m name args = some v) :
    W.Knows v ∧ BuiltinMethod.ofAny? name args.length = none ∧
      ∃ b, BuiltinMethod.ofType? Builtin.method name args.length = some b
        ∧ (StaticType.of b.returnType).Holds W.tables v := by
  unfold Builtin.ofMethod at made
  split at made
  case h_3 => cases made
  all_goals
    cases made
    exact ⟨trivial, rfl, _, rfl, rfl⟩

/-- What every value answers. -/
theorem holds_of_ofAny {r : Value} {name : String} {args : List Value} {v : Value}
    (made : Builtin.ofAny r name args = some v) :
    W.Knows v ∧ ∃ b, BuiltinMethod.ofAny? name args.length = some b
      ∧ (StaticType.of b.returnType).Holds W.tables v := by
  unfold Builtin.ofAny at made
  split at made
  case h_4 => cases made
  all_goals
    cases made
    exact ⟨trivial, _, rfl, rfl⟩

/-- What an object answers that no type above its class implements. -/
theorem holds_of_ofObject {o : Object} {name : String} {args : List Value} {v : Value}
    (made : Builtin.ofObject o name args = some v) :
    W.Knows v ∧ ∃ b, BuiltinMethod.ofAny? name args.length = some b
      ∧ (StaticType.of b.returnType).Holds W.tables v := by
  unfold Builtin.ofObject at made
  split at made
  case h_4 => cases made
  all_goals
    cases made
    exact ⟨trivial, _, rfl, rfl⟩

theorem answers_of_find? {r : Value} (notObject : ∀ o, r ≠ .object o) (notNull : r ≠ .null)
    {name : String} {args : List Value} {v : Value}
    (holds : ∀ b, BuiltinMethod.ofType? r.kindName name args.length = some b ∨
      BuiltinMethod.ofAny? name args.length = some b →
      (StaticType.of b.returnType).Holds W.tables v) : W.Answers r name args v := by
  have general : ∀ t b, r.isInstanceOf W.tables t = true →
      BuiltinMethod.find? (.ref t) name args.length = some b →
      (StaticType.of b.returnType).Holds W.tables v := fun t b ofType found =>
    holds b (find?_of_isInstanceOf notObject notNull ofType found)
  cases r with
  | null => exact absurd rfl notNull
  | object o => exact absurd rfl (notObject o)
  | _ => exact general

/-- A value that is no object answers as the checker takes it to. -/
theorem answers_of_ofValue {r : Value} (notObject : ∀ o, r ≠ .object o) (notNull : r ≠ .null)
    {name : String} {args : List Value} {v : Value}
    (made : Builtin.ofValue r name args = some (.ok v)) :
    W.Knows v ∧ W.Answers r name args v := by
  have own : ∀ b, W.Knows v → BuiltinMethod.ofAny? name args.length = none →
      BuiltinMethod.ofType? r.kindName name args.length = some b →
      (StaticType.of b.returnType).Holds W.tables v → W.Knows v ∧ W.Answers r name args v := by
    intro b known none_ found holds
    refine ⟨known, answers_of_find? notObject notNull ?_⟩
    rintro b' (found' | found')
    · rw [found] at found'
      cases found'
      exact holds
    · rw [none_] at found'
      cases found'
  have any : Builtin.ofAny r name args = some v → W.Knows v ∧ W.Answers r name args v := by
    intro made
    obtain ⟨known, b, found, holds⟩ := holds_of_ofAny (W := W) made
    refine ⟨known, answers_of_find? notObject notNull ?_⟩
    rintro b' (found' | found')
    · rw [BuiltinMethod.ofType?_of_ofAny? found] at found'
      cases found'
    · rw [found] at found'
      cases found'
      exact holds
  simp only [Builtin.ofValue, Option.or_eq_some_iff] at made
  rcases made with made | ⟨_, made⟩
  · cases r with
    | str s =>
      obtain ⟨known, none_, b, found, holds⟩ := holds_of_ofText (W := W) made
      exact own b known none_ found holds
    | type d =>
      obtain ⟨w, made, same⟩ := Option.map_eq_some_iff.1 made
      cases same
      obtain ⟨known, none_, b, found, holds⟩ := holds_of_ofType (W := W) made
      exact own b known none_ found holds
    | method m =>
      obtain ⟨w, made, same⟩ := Option.map_eq_some_iff.1 made
      cases same
      obtain ⟨known, none_, b, found, holds⟩ := holds_of_ofMethod (W := W) made
      exact own b known none_ found holds
    | _ => cases made
  · obtain ⟨w, made, same⟩ := Option.map_eq_some_iff.1 made
    cases same
    exact any made

/-- A builtin method fails on an argument that is no text. -/
theorem refused_of_ofValue {r : Value} {name : String} {args : List Value} {f : Failure}
    (made : Builtin.ofValue r name args = some (.error f)) :
    ∃ method ∈ ["concat", "contains"], ∃ v, Builtin.textArgument method v = .error f := by
  simp only [Builtin.ofValue, Option.or_eq_some_iff] at made
  rcases made with made | ⟨_, made⟩
  · cases r with
    | str s =>
      simp only [Builtin.ofText] at made
      split at made
      case h_6 other =>
        cases argument : Builtin.textArgument "concat" other with
        | ok t => simp [argument, Except.map] at made
        | error g =>
          simp only [argument, Except.map, Option.some.injEq, Except.error.injEq] at made
          exact ⟨"concat", by decide, other, made ▸ argument⟩
      case h_7 other =>
        cases argument : Builtin.textArgument "contains" other with
        | ok t => simp [argument, Except.map] at made
        | error g =>
          simp only [argument, Except.map, Option.some.injEq, Except.error.injEq] at made
          exact ⟨"contains", by decide, other, made ▸ argument⟩
      all_goals cases made
    | type d =>
      obtain ⟨w, _, same⟩ := Option.map_eq_some_iff.1 made
      cases same
    | method m =>
      obtain ⟨w, _, same⟩ := Option.map_eq_some_iff.1 made
      cases same
    | _ => cases made
  · obtain ⟨w, _, same⟩ := Option.map_eq_some_iff.1 made
    cases same

/-- The failures of builtin methods carry no values. -/
theorem knowsFailure_of_ofValue {r : Value} {name : String} {args : List Value} {f : Failure}
    (made : Builtin.ofValue r name args = some (.error f)) : W.KnowsFailure f := by
  obtain ⟨method, _, v, refused⟩ := refused_of_ofValue made
  cases v <;> cases refused <;> trivial

end World

end Classwright

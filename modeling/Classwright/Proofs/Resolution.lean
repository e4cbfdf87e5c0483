import Classwright.Proofs.Soundness

/-!
# Resolution of calls

The checker resolves a call by the static types of its arguments, among the methods of the class and
those of the types above it. A run resolves it again by the values: among the methods of the class
first, in order, and then by name and arity among the natives above the class. The two agree where
the run meets nothing earlier that takes the values.
-/

namespace Classwright

open Check

/-- What a call runs, with the arguments as it takes them. -/
inductive Target
  | own (m : Code.Method) (args : List Value)
  | native (host : Descriptor) (code : NativeCode) (args : List Value)

def Target.run (calls : Calls) (o : Object) : Target → Run Value
  | own m args => callMethod calls o m args
  | native _ code args => (code o args).run calls

/-- The methods of the class that stand in front of the one of this name and these parameters. -/
def LoadedClass.methodsBefore (c : LoadedClass) (name : String) (params : List TypeRef) :
    List Code.Method :=
  c.code.methods.takeWhile fun k => !(k.name == name && k.params == params)

/-- The host types above the class that are nearer than the one of this name. -/
def LoadedClass.hostsBefore (tables : Tables) (c : LoadedClass) (owner : String) :
    List Descriptor :=
  (c.supertypes tables).takeWhile (·.name != owner)

/-- Whether a call of this name may run the method with the arguments. -/
def Code.Method.Takes (tables : Tables) (k : Code.Method) (name : String) (args : List Value) :
    Prop :=
  k.name = name ∧ (Value.coerceAll tables k.params args).isSome = true

namespace World

def native? (W : World) (owner name : String) (arity : Nat) : Option NativeCode :=
  (W.store.registry W.path).native? owner name arity

/-- What a call passed on above the class runs, if it is native code that takes the arguments. -/
def targetAbove? (W : World) (c : LoadedClass) (name : String) (args : List Value) :
    Option Target :=
  (W.store.inheritedNative? c name args.length).bind fun (host, code) =>
    (nativeArguments W.tables host name args).toOption.map (.native host code)

/-- What a call on an object of the class runs, if it is a method of the class or native code. -/
def target? (W : World) (c : LoadedClass) (name : String) (args : List Value) : Option Target :=
  match c.findMethod W.tables name args with
  | .ok (some (m, taken)) => some (.own m taken)
  | .ok none => W.targetAbove? c name args
  | .error _ => none

/-- The values are of the static types of the arguments. -/
def Conforming (W : World) (statics : List Argument) (values : List Value) : Prop :=
  List.Forall₂ (fun a v => a.type.Proper ∧ a.type.Holds W.tables v ∧ W.Knows v) statics values

/-- A method of the class always takes the arguments, and it is the one of these parameters unless
an earlier one takes them. -/
def OwnAgrees (W : World) (d : LoadedClass) (name : String) (params : List TypeRef) : Prop :=
  ∀ args, W.Fit params args → ∃ k taken, W.target? d name args = some (.own k taken) ∧
    k.name = name ∧ Value.coerceAll W.tables k.params args = some taken ∧
    (k.params = params ↔ ∀ other ∈ d.methodsBefore name params, ¬ other.Takes W.tables name args)

/-- The native of the host type runs unless a nearer type has one. -/
def AboveAgrees (W : World) (d : LoadedClass) (owner name : String) (params : List TypeRef) :
    Prop :=
  ∀ args, W.Fit params args →
    ((∃ host code taken, W.targetAbove? d name args = some (.native host code taken) ∧
        host.name = owner) ↔
      ∀ host ∈ d.hostsBefore W.tables owner, W.native? host.name name args.length = none)

/-- The native of the host type runs unless a nearer type has one or the class declares methods of
the name and the arity. -/
def InheritedAgrees (W : World) (d : LoadedClass) (owner name : String) (params : List TypeRef) :
    Prop :=
  ∀ args, W.Fit params args →
    ((∃ host code taken, W.target? d name args = some (.native host code taken) ∧
        host.name = owner) ↔
      (∀ k ∈ d.code.methods, k.name = name → k.params.length ≠ args.length) ∧
      ∀ host ∈ d.hostsBefore W.tables owner, W.native? host.name name args.length = none)

end World

/-- The code of an argument where it is passed for a parameter that takes it. -/
def Check.Argument.passedFor (a : Argument) (p : TypeRef) : Code.Expr :=
  match a.type, p with
  | .primitive source, .primitive target => promote a.code source target
  | _, _ => a.code

def Check.passed (statics : List Argument) (params : List TypeRef) : List Code.Expr :=
  List.zipWith Argument.passedFor statics params

namespace World

/-- A call on the class's own type that the checker has resolved to a method of these parameters
hands values of their types to what the run picks. -/
structure CallRuns (W : World) (n : Nat) (d : LoadedClass) (name : String)
    (statics : List Argument) (m : Method) : Prop where
  lowered : ∀ receiver span st, receiver.2 = .ref (.named d.code.name) →
    lowerCall (W.context n) receiver name statics span st =
      ((.invoke receiver.1 name (passed statics m.params), .of m.returnType), st)
  runs : ∀ rounds frame receiver o values locals s locals₁ s₁ locals₂ s₂,
    eval (.within (rounds + 1)) frame receiver locals s = (.ok (.object o, locals₁), s₁) →
    W.HasObject o → (Value.object o).isInstanceOf W.tables (.named d.code.name) = true →
    evalAll (.within (rounds + 1)) frame (statics.map (·.code)) locals₁ s₁
      = (.ok (values, locals₂), s₂) →
    W.Conforming statics values → s₂.registries = W.registries →
    ∃ given, W.Fit m.params given ∧ ∀ target, W.target? d name given = some target →
      eval (.within (rounds + 1)) frame (.invoke receiver name (passed statics m.params)) locals s
        = ((·, locals₂) <$> target.run (.within rounds) o) s₂

/-- The same of a call on `super`. -/
structure SuperCallRuns (W : World) (n : Nat) (d : LoadedClass) (name : String)
    (statics : List Argument) (m : Method) : Prop where
  lowered : ∀ span st, lowerSuperCall (W.context n) name statics span st =
    ((.invokeSuper name (passed statics m.params), .of m.returnType), st)
  runs : ∀ calls o values locals s locals₁ s₁, W.HasObject o → o.cls = d →
    evalAll calls ⟨some o, d⟩ (statics.map (·.code)) locals s = (.ok (values, locals₁), s₁) →
    W.Conforming statics values → s₁.registries = W.registries →
    ∃ given, W.Fit m.params given ∧ ∀ target, W.targetAbove? d name given = some target →
      eval calls ⟨some o, d⟩ (.invokeSuper name (passed statics m.params)) locals s
        = ((·, locals₁) <$> target.run calls o) s₁

end World

/-! ### Arguments -/

namespace Check

variable {cx : ClassContext}

/-- Nothing is narrowed where an argument may be passed for a parameter as it is. -/
theorem coerce_of_isAssignable {a : Argument} {p : TypeRef}
    (assignable : cx.isAssignable a.type p = true) (span : Span) :
    coerce cx a.code a.type p span = pure (a.passedFor p) := by
  obtain ⟨code, type, place⟩ := a
  change cx.isAssignable type p = true at assignable
  have plain : ∀ type p, (match type, p with
      | .primitive source, .primitive target => pure (promote code source target)
      | _, _ => pure code : Lower Code.Expr)
      = pure (Argument.passedFor ⟨code, type, place⟩ p) := by
    intro type p
    cases type <;> cases p <;> rfl
  unfold coerce
  rw [if_neg (by simp [assignable])]
  dsimp only
  split
  · rename_i kind value
    have notNarrowed : constantFits value kind = false := by
      cases kind <;> first | rfl | cases assignable
    rw [notNarrowed, if_neg Bool.false_ne_true]
    exact plain (.primitive .int) (.primitive kind)
  · exact plain _ _

theorem coerceArgs_of_accepts {params : List TypeRef} {statics : List Argument}
    (accepted : accepts cx params statics = true) :
    coerceArgs cx params statics = pure (passed statics params) := by
  induction statics generalizing params with
  | nil =>
    cases params with
    | nil => rfl
    | cons p params => cases accepted
  | cons a statics ih =>
    cases params with
    | nil => cases accepted
    | cons p params =>
      simp only [accepts, List.length_cons, beq_iff_eq, Nat.add_right_cancel_iff,
        List.zip_cons_cons, List.all_cons, Bool.and_eq_true] at accepted
      obtain ⟨length, first, rest⟩ := accepted
      have tail : coerceArgs cx params statics = pure (passed statics params) :=
        ih (by simp [accepts, length, rest])
      rw [coerceArgs, coerce_of_isAssignable first, tail]
      rfl

end Check

/-- A body goes on where a part of it has ended. -/
theorem Body.bind_of_ok {α β : Type} {body : Body α} {next : α → Body β} {a : α}
    {locals locals' : List Value} {s s' : Store} (ran : body locals s = (.ok (a, locals'), s')) :
    (body >>= next) locals s = next a locals' s' := by
  change (ExceptT.bindCont (fun r => next r.1 r.2) (body locals s).1) (body locals s).2 = _
  rw [ran]
  rfl

theorem Body.ok_of_bind {α β : Type} {body : Body α} {next : α → Body β} {b : β}
    {locals locals' : List Value} {s s' : Store}
    (ran : (body >>= next) locals s = (.ok (b, locals'), s')) :
    ∃ a locals₁ s₁, body locals s = (.ok (a, locals₁), s₁)
      ∧ next a locals₁ s₁ = (.ok (b, locals'), s') := by
  cases first : body locals s with
  | mk outcome s₁ =>
    change (ExceptT.bindCont (fun r => next r.1 r.2) (body locals s).1) (body locals s).2 = _ at ran
    rw [first] at ran
    cases outcome with
    | error stop => cases ran
    | ok r => exact ⟨r.1, r.2, s₁, rfl, ran⟩

/-- A call in a body leaves the variables as they are. -/
theorem Body.lift_congr {α : Type} {run run' : Run α} {locals : List Value} {s : Store}
    (same : run s = run' s) : (liftM run : Body α) locals s = ((·, locals) <$> run') s := by
  let next (a : α) : Run (α × List Value) := pure (a, locals)
  rw [map_eq_pure_bind]
  change (ExceptT.bindCont next (run s).1) (run s).2
    = (ExceptT.bindCont next (run' s).1) (run' s).2
  rw [same]

namespace World

variable {W : World} {n : Nat} {d : LoadedClass} {calls : Calls} {frame : Frame}

/-- An argument that is passed has the value that it has by itself, as one of the parameter type. -/
theorem eval_passedFor (linked : W.Linked) (hd : W.classes n = some d) {a : Argument} {p : TypeRef}
    (assignable : (W.context n).isAssignable a.type p = true) {v : Value}
    (typed : a.type.Proper ∧ a.type.Holds W.tables v ∧ W.Knows v) {locals locals' : List Value}
    {s s' : Store} (ran : eval calls frame a.code locals s = (.ok (v, locals'), s')) :
    ∃ w, (w.isInstanceOf W.tables p = true ∧ W.Knows w) ∧
      eval calls frame (a.passedFor p) locals s = (.ok (w, locals'), s') := by
  obtain ⟨code, type, place⟩ := a
  obtain ⟨proper, holds, known⟩ := typed
  by_cases prim : ∃ kind, p = .primitive kind
  · obtain ⟨kind, rfl⟩ := prim
    obtain ⟨own, rfl⟩ := primitive_of_isAssignable proper assignable
    change eval calls frame code locals s = _ at ran
    change ∃ w, _ ∧ eval calls frame (promote code own kind) locals s = _
    by_cases same : own = kind
    · refine ⟨v, ⟨(Value.isInstanceOf_primitive kind v).2 (same ▸ holds), known⟩, ?_⟩
      rw [promote, if_pos same]
      exact ran
    · have numeric : own.isNumeric = kind.isNumeric := by
        cases own <;> cases kind <;> first | rfl | cases assignable
      obtain ⟨w, made⟩ := Option.isSome_iff_exists.1 (Value.convert_isSome holds numeric)
      have ofKind : w.isInstanceOf W.tables (.primitive kind) = true :=
        (Value.isInstanceOf_primitive kind w).2 (Value.convert_primitive made)
      refine ⟨w, ⟨ofKind, knows_of_primitive? (Value.convert_primitive made)⟩, ?_⟩
      rw [promote, if_neg same, convert, eval, Body.bind_of_ok ran, castTo, made]
      rfl
  · have noprim : ∀ kind, p ≠ .primitive kind := fun kind same => prim ⟨kind, same⟩
    have novoid := novoid_of_isAssignable proper assignable
    have within := within_of_isAssignable linked hd proper noprim assignable v known holds
    refine ⟨v, ⟨(StaticType.holds_of_iff novoid).1 within, known⟩, ?_⟩
    have asItIs : Argument.passedFor ⟨code, type, place⟩ p = code := by
      cases p with
      | primitive kind => exact absurd rfl (noprim kind)
      | _ => cases type <;> rfl
    rw [asItIs]
    exact ran

theorem evalAll_passed (linked : W.Linked) (hd : W.classes n = some d) {params : List TypeRef}
    {statics : List Argument} (accepted : accepts (W.context n) params statics = true)
    {values : List Value} (conform : W.Conforming statics values) {locals locals' : List Value}
    {s s' : Store}
    (ran : evalAll calls frame (statics.map (·.code)) locals s = (.ok (values, locals'), s')) :
    ∃ given, W.Fit params given ∧
      evalAll calls frame (passed statics params) locals s = (.ok (given, locals'), s') := by
  induction conform generalizing params locals s with
  | nil =>
    cases params with
    | nil => exact ⟨[], .nil, ran⟩
    | cons p params => cases accepted
  | @cons a v statics values typed _ ih =>
    cases params with
    | nil => cases accepted
    | cons p params =>
      simp only [accepts, List.length_cons, beq_iff_eq, Nat.add_right_cancel_iff,
        List.zip_cons_cons, List.all_cons, Bool.and_eq_true] at accepted
      obtain ⟨length, assignable, rest⟩ := accepted
      obtain ⟨v', locals₁, s₁, first, ran⟩ := Body.ok_of_bind ran
      obtain ⟨vs, locals₂, s₂, others, ran⟩ := Body.ok_of_bind ran
      cases ran
      obtain ⟨w, ofType, here⟩ := eval_passedFor linked hd assignable typed first
      have tail : accepts (W.context n) params statics = true := by simp [accepts, length, rest]
      obtain ⟨given, fit, there⟩ := ih tail others
      refine ⟨w :: given, .cons ofType fit, ?_⟩
      change evalAll calls frame (a.passedFor p :: passed statics params) locals s = _
      rw [evalAll, Body.bind_of_ok here, Body.bind_of_ok there]
      rfl

end World

/-! ### What the values choose -/

/-- What is taken from a list stands in front of whatever is not taken. -/
theorem takeWhile_leads {α : Type} {p : α → Bool} {x : α} {before after : List α}
    (stop : p x = false) : (before ++ x :: after).takeWhile p <+: before := by
  rw [List.takeWhile_append]
  split
  · have none_ : (x :: after).takeWhile p = [] := List.takeWhile_cons_of_neg (by simp [stop])
    exact ⟨[], by simp [none_]⟩
  · exact List.takeWhile_prefix p

theorem Value.length_of_coerceAll {tables : Tables} {types : List TypeRef}
    {values taken : List Value} (made : coerceAll tables types values = some taken) :
    types.length = values.length := by
  induction types generalizing values taken with
  | nil =>
    cases values with
    | nil => rfl
    | cons v vs => cases made
  | cons t ts ih =>
    cases values with
    | nil => cases made
    | cons v vs =>
      simp only [coerceAll, Option.bind_eq_bind, Option.bind_eq_some_iff] at made
      obtain ⟨_, _, _, rest, _⟩ := made
      rw [List.length_cons, List.length_cons, ih rest]

namespace LoadedClass

variable {tables : Tables} {c : LoadedClass} {name : String} {args : List Value}

instance (k : Code.Method) : Decidable (k.Takes tables name args) :=
  inferInstanceAs (Decidable (_ ∧ _))

/-- Among the methods of the name and the arity the first that takes the arguments is the first
of all methods that a call of the name may run. -/
theorem findSome?_takes (tables : Tables) (name : String) (args : List Value)
    (methods : List Code.Method) :
    (methods.filter fun m => m.name == name && m.params.length == args.length).findSome?
        (fun m => (Value.coerceAll tables m.params args).map (m, ·))
      = (methods.find? fun m => decide (m.Takes tables name args)).bind fun m =>
        (Value.coerceAll tables m.params args).map (m, ·) := by
  induction methods with
  | nil => rfl
  | cons m methods ih =>
    by_cases candidate : m.name = name ∧ m.params.length = args.length
    · rw [List.filter_cons_of_pos (by simpa using candidate), List.findSome?_cons]
      cases made : Value.coerceAll tables m.params args with
      | none =>
        have refuses : ¬ m.Takes tables name args := by
          rintro ⟨_, taken⟩
          rw [made] at taken
          cases taken
        rw [List.find?_cons_of_neg (by simpa using refuses)]
        exact ih
      | some taken =>
        have takes : m.Takes tables name args := ⟨candidate.1, by rw [made]; rfl⟩
        rw [List.find?_cons_of_pos (by simpa using takes), Option.bind_some, made]
        rfl
    · have refuses : ¬ m.Takes tables name args := by
        rintro ⟨same, taken⟩
        obtain ⟨taken, made⟩ := Option.isSome_iff_exists.1 taken
        exact candidate ⟨same, Value.length_of_coerceAll made⟩
      rw [List.filter_cons_of_neg (by simpa using candidate),
        List.find?_cons_of_neg (by simpa using refuses)]
      exact ih

/-- A call runs the first method of the class that takes the arguments. -/
theorem findMethod_of_find? {m : Code.Method} {taken : List Value}
    (first : c.code.methods.find? (fun m => decide (m.Takes tables name args)) = some m)
    (made : Value.coerceAll tables m.params args = some taken) :
    c.findMethod tables name args = .ok (some (m, taken)) := by
  have chosen := findSome?_takes tables name args c.code.methods
  rw [first, Option.bind_some, made, Option.map_some] at chosen
  unfold findMethod
  split
  · rename_i none_
    rw [none_] at chosen
    cases chosen
  · rename_i k ks some_
    rw [some_] at chosen
    rw [chosen]

/-- A call is passed on if the class has no method of the name and the arity. -/
theorem findMethod_eq_none_iff :
    c.findMethod tables name args = .ok none
      ↔ ∀ k ∈ c.code.methods, k.name = name → k.params.length ≠ args.length := by
  have empty : (c.code.methods.filter fun m =>
      m.name == name && m.params.length == args.length) = []
      ↔ ∀ k ∈ c.code.methods, k.name = name → k.params.length ≠ args.length := by
    simp [List.filter_eq_nil_iff]
  rw [← empty]
  unfold findMethod
  constructor
  · intro found
    split at found
    · assumption
    · split at found <;> cases found
  · intro none_
    rw [none_]

end LoadedClass

namespace World

variable {W : World} {n : Nat} {d : LoadedClass} {name : String}

theorem coerceAll_of_fit {params : List TypeRef} {args : List Value} (fit : W.Fit params args) :
    ∃ taken, Value.coerceAll W.tables params args = some taken := by
  induction fit with
  | nil => exact ⟨[], rfl⟩
  | cons head _ ih =>
    obtain ⟨taken, rest⟩ := ih
    obtain ⟨v, first⟩ := Option.isSome_iff_exists.1
      (Value.coerceTo_isSome_of_isInstanceOf head.1)
    refine ⟨v :: taken, ?_⟩
    rw [Value.coerceAll, first, rest]
    rfl

/-- Where the class declares a method of these parameters, one of its methods takes arguments of
their types. -/
theorem own_agrees {params : List TypeRef}
    (declared : ∃ k ∈ d.code.methods, k.name = name ∧ k.params = params) :
    W.OwnAgrees d name params := by
  intro args fit
  obtain ⟨given, takes⟩ := coerceAll_of_fit fit
  have any : ∃ k ∈ d.code.methods, decide (k.Takes W.tables name args) = true := by
    obtain ⟨k, member, rfl, rfl⟩ := declared
    exact ⟨k, member, decide_eq_true ⟨rfl, by rw [takes]; rfl⟩⟩
  obtain ⟨k, first⟩ := Option.isSome_iff_exists.1 (List.find?_isSome.2 any)
  have chosen : k.Takes W.tables name args := by simpa using List.find?_some first
  obtain ⟨taken, made⟩ := Option.isSome_iff_exists.1 chosen.2
  refine ⟨k, taken, ?_, chosen.1, made, ?_⟩
  · rw [target?, LoadedClass.findMethod_of_find? first made]
  obtain ⟨_, before, after, split, refuse⟩ := List.find?_eq_some_iff_append.1 first
  constructor
  · -- The methods in front of the first one of these parameters are in front of `k`.
    rintro rfl other inFront
    have front : d.methodsBefore name k.params <+: before := by
      rw [LoadedClass.methodsBefore, split]
      exact takeWhile_leads (by simp [chosen.1])
    have := refuse other (front.subset inFront)
    simpa using this
  · intro clear
    by_contra different
    have member : k ∈ d.methodsBefore name params := by
      rw [LoadedClass.methodsBefore, split, List.takeWhile_append_of_pos]
      · rw [List.takeWhile_cons_of_pos (by simp [different])]
        simp
      · intro other inFront
        have refused := refuse other inFront
        simp only [Bool.not_eq_true', Bool.and_eq_false_imp, beq_iff_eq, beq_eq_false_iff_ne]
        rintro rfl rfl
        simp [Code.Method.Takes, takes] at refused
    exact clear k member chosen

/-- A host type that declares the method has arguments for its native. -/
theorem nativeArguments_of_declares {host : Descriptor} {m : Method} (declares : m ∈ host.methods)
    {args given : List Value} (takes : Value.coerceAll W.tables m.params args = some given) :
    ∃ taken, nativeArguments W.tables host m.name args = .ok taken := by
  have found : m ∈ host.findMethods m.name args.length := by
    have arity := Value.length_of_coerceAll takes
    simp [Descriptor.findMethods, Method.arity, declares, arity]
  unfold nativeArguments
  split
  · rename_i none_
    rw [none_] at found
    cases found
  · rename_i first others some_
    rw [some_] at found
    have any : ((first :: others).findSome? fun m =>
        Value.coerceAll W.tables m.params args).isSome = true := by
      rw [List.findSome?_isSome_iff]
      exact ⟨m, found, by rw [takes]; rfl⟩
    obtain ⟨taken, made⟩ := Option.isSome_iff_exists.1 any
    exact ⟨taken, by rw [made]⟩

theorem supertypes_eq_lineage (linked : W.Linked) (hd : W.classes n = some d) :
    d.supertypes W.tables = W.table.lineage d.code.superclass d.code.interfaces := by
  rw [LoadedClass.supertypes, (linked.compiled n d hd).2.1]
  rfl

/-- A call that is passed on runs the native of the nearest type that has one. -/
theorem inheritedNative?_eq_some_iff (linked : W.Linked) (hd : W.classes n = some d) {arity : Nat}
    {host : Descriptor} {code : NativeCode} :
    W.store.inheritedNative? d name arity = some (host, code) ↔
      ∃ before after, d.supertypes W.tables = before ++ host :: after ∧
        W.native? host.name name arity = some code ∧
        ∀ nearer ∈ before, W.native? nearer.name name arity = none := by
  have picks : W.store.inheritedNative? d name arity
      = (d.supertypes W.tables).findSome? fun host =>
        (W.native? host.name name arity).map (host, ·) := by
    rw [Store.inheritedNative?, (linked.compiled n d hd).2.1]
    rfl
  rw [picks, List.findSome?_eq_some_iff]
  constructor
  · rintro ⟨before, here, after, split, native, none_⟩
    obtain ⟨code', native, same⟩ := Option.map_eq_some_iff.1 native
    cases same
    exact ⟨before, after, split, native, by simpa using none_⟩
  · rintro ⟨before, after, split, native, none_⟩
    exact ⟨before, host, after, split, by rw [native]; rfl, by simpa using none_⟩

/-- The nearer types are those in front of the type itself. -/
theorem hostsBefore_split (linked : W.Linked) (hd : W.classes n = some d) {owner : Descriptor}
    (member : owner ∈ d.supertypes W.tables) :
    ∃ after, d.supertypes W.tables = d.hostsBefore W.tables owner.name ++ owner :: after := by
  have any : ((d.supertypes W.tables).find? (·.name == owner.name)).isSome = true := by
    rw [List.find?_isSome]
    exact ⟨owner, member, beq_self_eq_true _⟩
  obtain ⟨host, first⟩ := Option.isSome_iff_exists.1 any
  obtain ⟨same, before, after, split, others⟩ := List.find?_eq_some_iff_append.1 first
  rw [beq_iff_eq] at same
  have isOwner : host = owner := by
    have above := supertypes_eq_lineage linked hd
    have there := TypeTable.lookup_of_mem_lineage (above ▸ List.mem_of_find?_eq_some first)
    rw [same, TypeTable.lookup_of_mem_lineage (above ▸ member)] at there
    exact (Option.some.inj there).symm
  subst isOwner
  have front : d.hostsBefore W.tables host.name = before := by
    rw [LoadedClass.hostsBefore, split,
      List.takeWhile_append_of_pos (fun other inFront => by simpa using others other inFront),
      List.takeWhile_cons_of_neg (by simp), List.append_nil]
  exact ⟨after, by rw [front]; exact split⟩

/-- No type in front of another one of the name is nearer than it. -/
theorem hostsBefore_leads {owner : String} {host : Descriptor} {before after : List Descriptor}
    (split : d.supertypes W.tables = before ++ host :: after) (same : host.name = owner) :
    d.hostsBefore W.tables owner <+: before := by
  rw [LoadedClass.hostsBefore, split]
  exact takeWhile_leads (by simp [same])

/-- Where a type above the class declares the method and has a native for it, a call that is passed
on runs this native unless it meets another first. -/
theorem above_agrees (linked : W.Linked) (hd : W.classes n = some d) {m : OwnedMethod}
    (inherited : m ∈ (W.context n).inheritedMethods)
    (implemented : (W.native? m.owner m.name m.method.params.length).isSome = true) :
    W.AboveAgrees d m.owner m.name m.method.params := by
  intro args fit
  obtain ⟨code, native⟩ := Option.isSome_iff_exists.1 (fit.length_eq ▸ implemented)
  obtain ⟨given, takes⟩ := coerceAll_of_fit fit
  rw [ClassContext.inheritedMethods, context_table, context_superclass linked hd,
    context_interfaces linked hd, ← supertypes_eq_lineage linked hd] at inherited
  simp only [ownedMethods, List.mem_flatMap, List.mem_map] at inherited
  obtain ⟨owner, member, method, declares, rfl⟩ := inherited
  change W.native? owner.name method.name args.length = some code at native
  change (∃ host code taken, W.targetAbove? d method.name args = _ ∧ _) ↔
    ∀ host ∈ d.hostsBefore W.tables owner.name, W.native? host.name method.name args.length = none
  constructor
  · rintro ⟨host, code', taken, target, same⟩ nearer inFront
    obtain ⟨⟨host', code''⟩, found, made⟩ := Option.bind_eq_some_iff.1 target
    obtain ⟨_, _, same'⟩ := Option.map_eq_some_iff.1 made
    cases same'
    obtain ⟨before, after, split, _, none_⟩ := (inheritedNative?_eq_some_iff linked hd).1 found
    exact none_ nearer ((hostsBefore_leads split same).subset inFront)
  · intro clear
    obtain ⟨after, split⟩ := hostsBefore_split linked hd member
    have found := (inheritedNative?_eq_some_iff linked hd).2 ⟨_, after, split, native, clear⟩
    obtain ⟨taken, made⟩ := nativeArguments_of_declares declares takes
    refine ⟨owner, code, taken, ?_, rfl⟩
    rw [targetAbove?, found, Option.bind_some]
    change (nativeArguments W.tables owner method.name args).toOption.map _ = _
    rw [made]
    rfl

theorem inherited_agrees {owner : String} {params : List TypeRef}
    (above : W.AboveAgrees d owner name params) : W.InheritedAgrees d owner name params := by
  intro args fit
  rw [← above args fit]
  have passedOn : d.findMethod W.tables name args = .ok none
      ↔ ∀ k ∈ d.code.methods, k.name = name → k.params.length ≠ args.length :=
    LoadedClass.findMethod_eq_none_iff
  constructor
  · rintro ⟨host, code, taken, target, same⟩
    unfold target? at target
    split at target
    · cases target
    · rename_i none_
      exact ⟨passedOn.1 none_, host, code, taken, target, same⟩
    · cases target
  · rintro ⟨none_, host, code, taken, target, same⟩
    refine ⟨host, code, taken, ?_, same⟩
    rw [target?, passedOn.2 none_]
    exact target

theorem invokeInherited_native {o : Object} {args taken : List Value} {s : Store}
    {host : Descriptor} {code : NativeCode}
    (found : s.inheritedNative? o.cls name args.length = some (host, code))
    (given : nativeArguments s.tables host name args = .ok taken) (calls : Calls) :
    invokeInherited calls o name args s = (code o taken).run calls s := by
  unfold invokeInherited
  rw [Run.bind_value (show (get : Run Store) s = (.ok s, s) from rfl), found]
  dsimp only
  rw [given]
  rfl

theorem run_of_targetAbove? {o : Object} {args : List Value} {target : Target}
    (picked : W.targetAbove? o.cls name args = some target) {s : Store}
    (same : s.registries = W.registries) (calls : Calls) :
    invokeInherited calls o name args s = target.run calls o s := by
  obtain ⟨⟨host, code⟩, found, made⟩ := Option.bind_eq_some_iff.1 picked
  obtain ⟨taken, converted, rfl⟩ := Option.map_eq_some_iff.1 made
  have given : nativeArguments s.tables host name args = .ok taken := by
    rw [tables_of_registries same]
    cases outcome : nativeArguments W.tables host name args with
    | error f =>
      rw [outcome] at converted
      cases converted
    | ok given =>
      rw [outcome] at converted
      exact congrArg _ (Option.some.inj converted)
  rw [← inheritedNative?_of_registries same] at found
  exact invokeInherited_native found given calls

/-- What is picked for a call is what it runs. -/
theorem run_of_target? {o : Object} {args : List Value} {target : Target}
    (picked : W.target? o.cls name args = some target) {s : Store}
    (same : s.registries = W.registries) (calls : Calls) :
    invokeObject calls o name args s = target.run calls o s := by
  have started : ∀ next : Tables → Run Value, (Run.tables >>= next) s = next W.tables s := by
    intro next
    rw [← tables_of_registries same]
    rfl
  rw [invokeObject, started]
  unfold target? at picked
  split at picked
  · rename_i m taken found
    cases picked
    rw [found, Run.ofExcept, pure_bind]
    rfl
  · rename_i found
    rw [found, Run.ofExcept, pure_bind]
    exact run_of_targetAbove? picked same calls
  · cases picked

theorem callRuns (linked : W.Linked) (hd : W.classes n = some d) {statics : List Argument}
    {m : OwnedMethod}
    (selected : select? (W.context n) ((W.context n).methodsOf d.code.name) name statics = some m) :
    W.CallRuns n d name statics m.method := by
  have accepted : accepts (W.context n) m.method.params statics = true := by
    have := List.find?_some selected
    simp only [Bool.and_eq_true] at this
    exact this.2
  have notBuiltin : Builtin.all.contains d.code.name = false := by
    simpa using (linked.fresh n d hd).1
  constructor
  · rintro ⟨code, type⟩ span st rfl
    have chosen : callee? (W.context n) (.ref (.named d.code.name)) name statics
        = some (m.method.params, .of m.method.returnType) := by
      simp only [callee?, StaticType.named?, Option.bind_some, notBuiltin, selected]
      rfl
    unfold lowerCall
    dsimp only
    rw [chosen]
    change (coerceArgs (W.context n) m.method.params statics >>= fun codes =>
      pure (.invoke code name codes, .of m.method.returnType) : Lower Lowered) st = _
    rw [coerceArgs_of_accepts accepted]
    rfl
  · intro rounds frame receiver o values locals s locals₁ s₁ locals₂ s₂ first ho below ran conform
      same
    obtain ⟨given, fit, there⟩ := evalAll_passed linked hd accepted conform ran
    have isOwn : o.cls = d := by
      rw [Value.isInstanceOf_named, Bool.or_eq_true, beq_iff_eq] at below
      rcases below with base | below
      · exact absurd (base ▸ by decide) (linked.fresh n d hd).1
      · exact eq_of_isSubtypeOf_name linked (linked.instances o ho) hd below
    refine ⟨given, fit, fun target picked => ?_⟩
    rw [eval, Body.bind_of_ok first, Body.bind_of_ok there]
    refine Body.lift_congr ?_
    exact run_of_target? (isOwn ▸ picked) same (.within rounds)

theorem superCallRuns (linked : W.Linked) (hd : W.classes n = some d) {statics : List Argument}
    {m : OwnedMethod}
    (selected : select? (W.context n) (W.context n).inheritedMethods name statics = some m)
    (concrete : m.method.isAbstract = false) : W.SuperCallRuns n d name statics m.method := by
  have accepted : accepts (W.context n) m.method.params statics = true := by
    have := List.find?_some selected
    simp only [Bool.and_eq_true] at this
    exact this.2
  constructor
  · intro span st
    rw [lowerSuperCall, selected]
    simp only [concrete, Bool.false_eq_true, if_false]
    rw [coerceArgs_of_accepts accepted]
    rfl
  · intro calls o values locals s locals₁ s₁ ho isOwn ran conform same
    obtain ⟨given, fit, there⟩ := evalAll_passed linked hd accepted conform ran
    refine ⟨given, fit, fun target picked => ?_⟩
    have this : (Frame.mk (some o) d).this locals₁ s₁ = (.ok (o, locals₁), s₁) := rfl
    rw [eval, Body.bind_of_ok there, Body.bind_of_ok this]
    refine Body.lift_congr ?_
    exact run_of_targetAbove? (isOwn ▸ picked) same calls

theorem owner_of_mem_methods (linked : W.Linked) (hd : W.classes n = some d) {m : OwnedMethod}
    (own : m ∈ (W.context n).methods) : m.owner = d.code.name := by
  rw [← context_name linked hd]
  simp only [ClassContext.methods, List.mem_filterMap] at own
  obtain ⟨member, inMembers, isMethod⟩ := own
  obtain ⟨before, after, split⟩ := List.append_of_mem inMembers
  obtain ⟨written, rfl⟩ := declareMembers_split split
  cases written with
  | field decl => cases isMethod
  | constructor decl => cases isMethod
  | method decl =>
    cases isMethod
    rfl

/-- No type above a class has the name of the class. -/
theorem owner_ne_of_mem_inheritedMethods (linked : W.Linked) (hd : W.classes n = some d)
    {m : OwnedMethod} (inherited : m ∈ (W.context n).inheritedMethods) :
    m.owner ≠ d.code.name := by
  rw [ClassContext.inheritedMethods, context_table] at inherited
  simp only [ownedMethods, List.mem_flatMap, List.mem_map] at inherited
  obtain ⟨host, member, method, _, rfl⟩ := inherited
  intro same
  have declared := TypeTable.lookup_of_mem_lineage member
  rw [show host.name = d.code.name from same, (linked.fresh n d hd).2] at declared
  cases declared

/-- A call on the class's own type or on `super` hands values of the parameter types of the method
that the checker has selected to what its run picks. A method of the class that has been selected is
picked unless an earlier one takes the values, and no call is refused then; a native is picked
unless a nearer type has one or, for a call that is not on `super`, the class has methods of the
name and the arity. -/
theorem resolution (linked : W.Linked) (hd : W.classes n = some d) (name : String)
    (statics : List Argument) :
    (∀ m, select? (W.context n) ((W.context n).methodsOf d.code.name) name statics = some m →
      W.CallRuns n d name statics m.method ∧
      (m.owner = d.code.name → W.OwnAgrees d name m.method.params) ∧
      (m.owner ≠ d.code.name → (W.native? m.owner name statics.length).isSome = true →
        W.InheritedAgrees d m.owner name m.method.params)) ∧
    ∀ m, select? (W.context n) (W.context n).inheritedMethods name statics = some m →
      m.method.isAbstract = false → W.SuperCallRuns n d name statics m.method ∧
      ((W.native? m.owner name statics.length).isSome = true →
        W.AboveAgrees d m.owner name m.method.params) := by
  have found : ∀ methods m, select? (W.context n) methods name statics = some m →
      m ∈ methods ∧ m.name = name ∧ m.method.params.length = statics.length := by
    intro methods m selected
    have accepted := List.find?_some selected
    simp only [accepts, Bool.and_eq_true, beq_iff_eq] at accepted
    exact ⟨List.mem_of_find?_eq_some selected, accepted.1.1, accepted.2.1⟩
  have above : ∀ m ∈ (W.context n).inheritedMethods, m.name = name →
      m.method.params.length = statics.length →
      (W.native? m.owner name statics.length).isSome = true →
      W.AboveAgrees d m.owner name m.method.params := by
    rintro m inherited rfl arity implemented
    rw [← arity] at implemented
    exact above_agrees linked hd inherited implemented
  constructor
  · intro m selected
    obtain ⟨member, named, arity⟩ := found _ m selected
    rw [ClassContext.methodsOf, context_name linked hd, if_pos rfl, List.mem_append] at member
    refine ⟨callRuns linked hd selected, fun ownerIs => ?_, fun ownerIsNot implemented => ?_⟩
    · have own := member.resolve_right fun inherited =>
        owner_ne_of_mem_inheritedMethods linked hd inherited ownerIs
      obtain ⟨k, hk, same, params, _⟩ :=
        (W.accepted linked hd).exists_code_of_mem_methods own
      exact own_agrees ⟨k, hk, same.trans named, params⟩
    · have inherited := member.resolve_left fun own =>
        ownerIsNot (owner_of_mem_methods linked hd own)
      exact inherited_agrees (above m inherited named arity implemented)
  · intro m selected concrete
    obtain ⟨inherited, named, arity⟩ := found _ m selected
    exact ⟨superCallRuns linked hd selected concrete, above m inherited named arity⟩

end World

/-! ### A class below a host type -/

namespace Sample

/-- A host type with a native for its method. -/
def base : Descriptor :=
  ⟨"Base", .concreteClass, none, [], [], [⟨"size", .int, [.int], [], .visible, false⟩]⟩

def bases : Registry :=
  ⟨⟨[base]⟩, [⟨"Base", [⟨"size", 1, fun _ args => .answer (args.headD .null)⟩]⟩]⟩

theorem bases_regular : bases.table.Regular where
  builtin_free := by decide +kernel
  parents_known := by decide +kernel

def caller : String :=
  "class Caller extends Base \x7b int twice(int x) \x7b return x + x; \x7d "
    ++ "int all(int x) \x7b return twice(x) + size(x) + super.size(x); \x7d \x7d"

/-- The argument `x`, which is the first variable. -/
def firstVariable (type : StaticType) : List Argument := [⟨.var 0, type, nowhere⟩]

def twiceMethod : OwnedMethod := ⟨⟨"twice", .int, [.int], [], .package, false⟩, "Caller", false⟩

def sizeMethod : OwnedMethod := ⟨⟨"size", .int, [.int], [], .visible, false⟩, "Base", false⟩

theorem caller_code : Links bases.table caller ∧
    let W := worldOf bases caller
    let cx := W.context 0
    let name := (classOf bases.table caller).code.name
    name = "Caller" ∧
    select? cx (cx.methodsOf name) "twice" (firstVariable .int) = some twiceMethod ∧
    select? cx (cx.methodsOf name) "size" (firstVariable .int) = some sizeMethod ∧
    select? cx cx.inheritedMethods "size" (firstVariable .int) = some sizeMethod ∧
    (W.native? "Base" "size" 1).isSome = true := by
  decide +kernel

/-- The method of the class runs, and so does the native behind both other calls. -/
theorem caller_resolved :
    (worldOf bases caller).OwnAgrees (classOf bases.table caller) "twice" [.int] ∧
    (worldOf bases caller).InheritedAgrees (classOf bases.table caller) "Base" "size" [.int] ∧
    (worldOf bases caller).AboveAgrees (classOf bases.table caller) "Base" "size" [.int] := by
  obtain ⟨links, name, own, inherited, above, native⟩ := caller_code
  have linked : (worldOf bases caller).Linked := worldOf_linked links bases_regular
  have resolved := World.resolution linked (n := 0) (d := classOf bases.table caller) rfl
  refine ⟨?_, ?_, ?_⟩
  · exact ((resolved _ _).1 _ own).2.1 name.symm
  · refine ((resolved _ _).1 _ inherited).2.2 ?_ native
    rw [name]
    decide
  · exact ((resolved _ _).2 _ above rfl).2 native

/-- A class with methods that run in the place of those that are selected. -/
def shadower : String :=
  "class Shadower extends Base \x7b int f(String s) \x7b return 1; \x7d "
    ++ "int f(Object o) \x7b return 2; \x7d int size(String s) \x7b return 0; \x7d "
    ++ "int g() \x7b Object o = \"a\"; return f(o); \x7d int h() \x7b return size(1); \x7d \x7d"

def fMethod : OwnedMethod := ⟨⟨"f", .int, [.object], [], .package, false⟩, "Shadower", false⟩

def shadowerStore : Store :=
  ((classOf bases.table shadower).instantiate
    (link (codeOf bases.table shadower) 0 64 (worldOf bases shadower).store).2).2

def result? : Except Stop Value → Option String
  | .ok v => some v.text
  | .error (.failed f) => some f.message
  | .error .exhausted => none

/-- With a text for `o`, the call `f(o)` runs `f(String)` where `f(Object)` is selected; the call
`size(1)` is refused where the native of `Base` is selected. -/
theorem shadower_not_resolved :
    compileSource bases.table shadower = .ok (codeOf bases.table shadower) ∧
    let W := worldOf bases shadower
    let cx := W.context 0
    let name := (classOf bases.table shadower).code.name
    select? cx (cx.methodsOf name) "f" (firstVariable .object) = some fMethod ∧
    (Value.str "a").isInstanceOf W.tables .object = true ∧
    ((W.target? (classOf bases.table shadower) "f" [.str "a"]).map fun
      | .own m _ => m.params
      | .native _ _ _ => []) = some [.string] ∧
    result? ((objectOf bases.table shadower).invoke "g" [] shadowerStore).1 = some "1" ∧
    select? cx (cx.methodsOf name) "size" (firstVariable .int) = some sizeMethod ∧
    (W.native? "Base" "size" 1).isSome = true ∧
    (W.target? (classOf bases.table shadower) "size" [.int 1]).isNone = true ∧
    result? ((objectOf bases.table shadower).invoke "h" [] shadowerStore).1
      = some "Illegal argument: Shadower.size(String) cannot be applied to (int)" := by
  refine ⟨(compiles_of_isOk ?_).1, ?_⟩
  · decide +kernel
  · decide +kernel

end Sample

end Classwright

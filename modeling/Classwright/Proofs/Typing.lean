import Classwright.Proofs.Frames

/-!
# Types of code

Code is of a static type in a class and a scope if, in every frame of the class whose variables hold
what they should and with calls that give what they declare, it keeps everything typed and gives a
value of the type. There is one lemma for each form of expression.
-/

namespace Classwright

open Check

namespace World

/-- The code has the static type in the bodies of the class of this number. -/
def Evaluates (W : World) (n : Nat) (vars : Vars) (code : Code.Expr) (type : StaticType) : Prop :=
  ∀ calls frame, calls.Sound W → W.FrameOf n frame →
    Body.Gives W vars (eval calls frame code) (fun v => W.Knows v ∧ type.Holds W.tables v)

/-- The code gives what may be passed to a parameter for an argument of the static type. -/
def EvaluatesFor (W : World) (n : Nat) (vars : Vars) (type : StaticType) (target : TypeRef)
    (code : Code.Expr) : Prop :=
  ∀ calls frame, calls.Sound W → W.FrameOf n frame →
    Body.Gives W vars (eval calls frame code) (W.Passes type target)

/-- The codes give what may be passed to the parameters for arguments of the static types. -/
def EvaluatesAll (W : World) (n : Nat) (vars : Vars) (params : List TypeRef)
    (types : List StaticType) (codes : List Code.Expr) : Prop :=
  ∀ calls frame, calls.Sound W → W.FrameOf n frame →
    Body.Gives W vars (evalAll calls frame codes) (W.Passed params types)

variable {W : World} {n : Nat} {vars : Vars}

theorem Evaluates.within {code : Code.Expr} {type target : StaticType}
    (h : W.Evaluates n vars code type) (within : W.Within type target) :
    W.Evaluates n vars code target := fun calls frame sound hframe =>
  (h calls frame sound hframe).mono fun v hv => ⟨hv.1, within v hv.1 hv.2⟩

theorem evaluates_const {c : Code.Constant} {type : StaticType}
    (holds : type.Holds W.tables (.ofConstant c)) : W.Evaluates n vars (.const c) type := by
  intro calls frame _ _
  refine .pure ⟨?_, holds⟩
  cases c <;> trivial

/-- The type of a variable that is in scope. -/
theorem evaluates_var {x : String × Variable} (hx : x ∈ vars) (novoid : x.2.type ≠ .void) :
    W.Evaluates n vars (.var x.2.slot) (.of x.2.type) := fun _ _ _ _ =>
  (Body.Gives.readVar hx).mono fun _ hv => ⟨hv.1, (StaticType.holds_of_iff novoid).2 hv.2⟩

theorem evaluates_this (valid : W.Valid) {d : LoadedClass} (hd : W.classes n = some d) :
    W.Evaluates n vars .this (.ref (.named (W.context n).name)) := by
  intro calls frame _ hframe
  refine (Body.Gives.this hframe).bind fun o ho => .pure ⟨ho.1, ?_⟩
  have same : o.cls = d := ho.2.trans (Option.some.inj (hframe.cls.symm.trans hd))
  simp [StaticType.Holds, Value.isInstanceOf, Value.isReference, LoadedClass.isSubtypeOf,
    context_name valid.toLinked hd, same]

/-- The field of this slot has the type in all objects of the class. -/
def FieldSlot (W : World) (n slot : Nat) (t : TypeRef) : Prop :=
  ∀ c, W.classes n = some c → (fieldTypes c.code.fields)[slot]? = some t

def StaticSlot (W : World) (n slot : Nat) (t : TypeRef) : Prop :=
  ∀ c, W.classes n = some c → (fieldTypes c.code.statics)[slot]? = some t

theorem FrameOf.own (valid : W.Valid) {frame : Frame} (hframe : W.FrameOf n frame) :
    W.classes frame.cls.id = some frame.cls := by
  rw [(valid.compiled n _ hframe.cls).1]
  exact hframe.cls

theorem FrameOf.object (valid : W.Valid) {frame : Frame} (hframe : W.FrameOf n frame) {o : Object}
    (same : o.cls = frame.cls) : W.classes o.cls.id = some o.cls := by
  rw [same]
  exact hframe.own valid

theorem evaluates_field (valid : W.Valid) {slot : Nat} {t : TypeRef} (hslot : W.FieldSlot n slot t)
    (novoid : t ≠ .void) : W.Evaluates n vars (.field slot) (.of t) := by
  intro calls frame _ hframe
  refine (Body.Gives.this hframe).bind fun o ho => ?_
  refine (Body.Gives.lift (Run.Keeps.readField (hframe.object valid ho.2))).mono ?_
  intro v ⟨known, t', at_, ofType⟩
  rw [ho.2, hslot _ hframe.cls, Option.some.injEq] at at_
  subst at_
  exact ⟨known, (StaticType.holds_of_iff novoid).2 ofType⟩

theorem evaluates_static (valid : W.Valid) {slot : Nat} {t : TypeRef}
    (hslot : W.StaticSlot n slot t) (novoid : t ≠ .void) :
    W.Evaluates n vars (.static slot) (.of t) := by
  intro calls frame _ hframe
  refine (Body.Gives.lift (Run.Keeps.readStatic (hframe.own valid))).mono ?_
  rintro v ⟨known, t', at_, ofType⟩
  rw [hslot _ hframe.cls, Option.some.injEq] at at_
  subst at_
  exact ⟨known, (StaticType.holds_of_iff novoid).2 ofType⟩

theorem Evaluates.storeVar {slot : Nat} {t : TypeRef} {code : Code.Expr} (novoid : t ≠ .void)
    (h : W.Evaluates n vars code (.of t)) (own : ∀ x ∈ vars, x.2.slot = slot → x.2.type = t) :
    W.Evaluates n vars (.storeVar slot code) (.of t) := by
  intro calls frame sound hframe
  refine (h calls frame sound hframe).bind fun v hv => ?_
  have ofType := (StaticType.holds_of_iff novoid).1 hv.2
  have stored := Body.Gives.writeVar frame slot hv.1
    fun x hx same => (own x hx same) ▸ ofType
  exact Body.Keeps.bind stored fun _ locals held => .pure ⟨held.1, hv⟩

theorem Evaluates.storeField (valid : W.Valid) {slot : Nat} {t : TypeRef} {code : Code.Expr}
    (novoid : t ≠ .void) (h : W.Evaluates n vars code (.of t)) (hslot : W.FieldSlot n slot t) :
    W.Evaluates n vars (.storeField slot code) (.of t) := by
  intro calls frame sound hframe
  refine (h calls frame sound hframe).bind fun v hv => ?_
  refine (Body.Gives.this hframe).bind fun o ho => ?_
  refine (Body.Gives.lift (Run.Keeps.writeField (hframe.object valid ho.2) hv.1 ?_)).bind
    fun _ _ => .pure hv
  intro t' at_
  rw [ho.2, hslot _ hframe.cls, Option.some.injEq] at at_
  exact at_ ▸ (StaticType.holds_of_iff novoid).1 hv.2

theorem Evaluates.storeStatic (valid : W.Valid) {slot : Nat} {t : TypeRef} {code : Code.Expr}
    (novoid : t ≠ .void) (h : W.Evaluates n vars code (.of t)) (hslot : W.StaticSlot n slot t) :
    W.Evaluates n vars (.storeStatic slot code) (.of t) := by
  intro calls frame sound hframe
  refine (h calls frame sound hframe).bind fun v hv => ?_
  refine (Body.Gives.lift (Run.Keeps.writeStatic (hframe.own valid) hv.1 ?_)).bind
    fun _ _ => .pure hv
  intro t' at_
  rw [hslot _ hframe.cls, Option.some.injEq] at at_
  exact at_ ▸ (StaticType.holds_of_iff novoid).1 hv.2

theorem Evaluates.negate {kind : Primitive} {code : Code.Expr} (work : kind.IsWork)
    (h : W.Evaluates n vars code (.primitive kind)) :
    W.Evaluates n vars (.unary .negate code) (.primitive kind) := by
  intro calls frame sound hframe
  refine (h calls frame sound hframe).bind fun v hv => .lift (.ofExcept ?_ ?_)
  · intro w made
    obtain ⟨p, hp, hw⟩ := Arithmetic.primitive?_negate made
    have same : p = kind := Option.some.inj (hp.symm.trans hv.2)
    rw [same, work.promoted_eq] at hw
    exact ⟨knows_of_primitive? hw, hw⟩
  · intro f failed
    obtain ⟨_, rfl⟩ := Arithmetic.unary_error failed
    trivial

theorem Evaluates.not {code : Code.Expr} {type : StaticType} (h : W.Evaluates n vars code type) :
    W.Evaluates n vars (.unary .not code) .boolean := by
  intro calls frame sound hframe
  refine (h calls frame sound hframe).bind fun v _ => .lift (.ofExcept ?_ ?_)
  · intro w made
    cases v <;> cases made
    exact ⟨trivial, rfl⟩
  · intro f failed
    obtain ⟨_, rfl⟩ := Arithmetic.unary_error failed
    trivial

/-- Two numbers of one type that arithmetic is done in. -/
theorem Evaluates.arithmetic {op : BinaryOp} {kind : Primitive} {left right : Code.Expr}
    (work : kind.IsWork) (hl : W.Evaluates n vars left (.primitive kind))
    (hr : W.Evaluates n vars right (.primitive kind)) :
    W.Evaluates n vars (.binary op left right)
      (if op.isComparison then .boolean else .primitive kind) := by
  intro calls frame sound hframe
  refine (hl calls frame sound hframe).bind fun a ha => ?_
  refine (hr calls frame sound hframe).bind fun b hb => ?_
  refine (Body.Gives.lift (binary_keeps sound.invoke ha.1 hb.1 op)).mono fun w hw => ?_
  have noText : ∀ v : Value, v.primitive? = some kind → isText v = false := by
    intro v own
    cases v <;> first | rfl | cases own
  rcases hw with ⟨⟨_, joined⟩, _⟩ | ⟨_, made⟩
  · rw [noText a ha.2, noText b hb.2] at joined
    cases joined
  · cases comparison : op.isComparison with
    | true =>
      have own := Arithmetic.isBool_of_comparison comparison made
      exact ⟨knows_of_primitive? own, own⟩
    | false =>
      obtain ⟨p, q, hp, hq, own⟩ := Arithmetic.primitive?_binary comparison made
      have hp : p = kind := Option.some.inj (hp.symm.trans ha.2)
      have hq : q = kind := Option.some.inj (hq.symm.trans hb.2)
      rw [hp, hq, work.promoteWith_self] at own
      exact ⟨knows_of_primitive? own, own⟩

/-- Whatever has a result of comparing for equality. -/
theorem Evaluates.equality {op : BinaryOp} {left right : Code.Expr} {lt rt : StaticType}
    (equality : op = .eq ∨ op = .ne) (hl : W.Evaluates n vars left lt)
    (hr : W.Evaluates n vars right rt) : W.Evaluates n vars (.binary op left right) .boolean := by
  intro calls frame sound hframe
  refine (hl calls frame sound hframe).bind fun a ha => ?_
  refine (hr calls frame sound hframe).bind fun b hb => ?_
  refine (Body.Gives.lift (binary_keeps sound.invoke ha.1 hb.1 op)).mono fun w hw => ?_
  have comparison : op.isComparison = true := by
    rcases equality with rfl | rfl <;> rfl
  rcases hw with ⟨⟨rfl, _⟩, _⟩ | ⟨_, made⟩
  · cases comparison
  · have own := Arithmetic.isBool_of_comparison comparison made
    exact ⟨knows_of_primitive? own, own⟩

/-- A sum with a string is a text. Where the string is `null` it has a value only if the other
operand is a text. -/
theorem Evaluates.concat {left right : Code.Expr} {lt rt : StaticType}
    (text : lt = .string ∨ rt = .string) (hl : W.Evaluates n vars left lt)
    (hr : W.Evaluates n vars right rt) : W.Evaluates n vars (.binary .add left right) .string := by
  intro calls frame sound hframe
  refine (hl calls frame sound hframe).bind fun a ha => ?_
  refine (hr calls frame sound hframe).bind fun b hb => ?_
  refine (Body.Gives.lift (binary_keeps sound.invoke ha.1 hb.1 .add)).mono fun w hw => ?_
  have noPrimitive : ∀ v : Value, StaticType.string.Holds W.tables v → v.primitive? = none := by
    intro v holds
    cases v <;> first | rfl | cases holds
  rcases hw with ⟨_, _, rfl⟩ | ⟨_, made⟩
  · exact ⟨trivial, rfl⟩
  · obtain ⟨p, q, hp, hq, _⟩ := Arithmetic.primitive?_binary rfl made
    rcases text with rfl | rfl
    · rw [noPrimitive a ha.2] at hp
      cases hp
    · rw [noPrimitive b hb.2] at hq
      cases hq

theorem Evaluates.and {left right : Code.Expr} {lt rt : StaticType}
    (hl : W.Evaluates n vars left lt) (hr : W.Evaluates n vars right rt) :
    W.Evaluates n vars (.and left right) .boolean := by
  intro calls frame sound hframe
  refine (hl calls frame sound hframe).bind fun a _ => ?_
  refine Body.Gives.truth.bind fun b _ => ?_
  cases b with
  | false => exact .pure ⟨trivial, rfl⟩
  | true =>
    refine (hr calls frame sound hframe).bind fun v _ => ?_
    exact Body.Gives.truth.bind fun b _ => .pure ⟨trivial, rfl⟩

theorem Evaluates.or {left right : Code.Expr} {lt rt : StaticType}
    (hl : W.Evaluates n vars left lt) (hr : W.Evaluates n vars right rt) :
    W.Evaluates n vars (.or left right) .boolean := by
  intro calls frame sound hframe
  refine (hl calls frame sound hframe).bind fun a _ => ?_
  refine Body.Gives.truth.bind fun b _ => ?_
  cases b with
  | true => exact .pure ⟨trivial, rfl⟩
  | false =>
    refine (hr calls frame sound hframe).bind fun v _ => ?_
    exact Body.Gives.truth.bind fun b _ => .pure ⟨trivial, rfl⟩

theorem Evaluates.conditional {condition thenCode elseCode : Code.Expr} {ct type : StaticType}
    (hc : W.Evaluates n vars condition ct) (ht : W.Evaluates n vars thenCode type)
    (he : W.Evaluates n vars elseCode type) :
    W.Evaluates n vars (.conditional condition thenCode elseCode) type := by
  intro calls frame sound hframe
  refine (hc calls frame sound hframe).bind fun a _ => ?_
  refine Body.Gives.truth.bind fun b _ => ?_
  cases b with
  | true => exact ht calls frame sound hframe
  | false => exact he calls frame sound hframe

theorem Evaluates.cast {code : Code.Expr} {type : StaticType} (h : W.Evaluates n vars code type)
    (target : TypeRef) (mode : Code.CastMode) :
    W.Evaluates n vars (.cast target mode code) (.of target) := by
  intro calls frame sound hframe
  exact (h calls frame sound hframe).bind fun v hv => .lift (castTo_keeps hv.1 target mode)

theorem EvaluatesFor.evaluates {code : Code.Expr} {type : StaticType} {target : TypeRef}
    (h : W.EvaluatesFor n vars type target code) (novoid : target ≠ .void) :
    W.Evaluates n vars code (.of target) := fun calls frame sound hframe =>
  (h calls frame sound hframe).mono fun _ hv =>
    ⟨hv.known, (StaticType.holds_of_iff novoid).2 hv.ofType⟩

theorem evaluatesAll_nil (params : List TypeRef) : W.EvaluatesAll n vars params [] [] :=
  fun _ _ _ _ => .pure .nil

theorem EvaluatesAll.cons {code : Code.Expr} {codes : List Code.Expr} {type : StaticType}
    {types : List StaticType} {param : TypeRef} {params : List TypeRef}
    (h : W.EvaluatesFor n vars type param code) (rest : W.EvaluatesAll n vars params types codes) :
    W.EvaluatesAll n vars (param :: params) (type :: types) (code :: codes) := by
  intro calls frame sound hframe
  refine (h calls frame sound hframe).bind fun v hv => ?_
  exact (rest calls frame sound hframe).bind fun vs hvs => .pure (.cons hv hvs)

/-- An argument beyond the parameters. -/
theorem EvaluatesAll.more {code : Code.Expr} {codes : List Code.Expr} {type : StaticType}
    {types : List StaticType} (h : W.Evaluates n vars code type)
    (rest : W.EvaluatesAll n vars [] types codes) :
    W.EvaluatesAll n vars [] (type :: types) (code :: codes) := by
  intro calls frame sound hframe
  refine (h calls frame sound hframe).bind fun v hv => ?_
  exact (rest calls frame sound hframe).bind fun vs hvs => .pure (.more hv.1 hv.2 hvs)

/-- The checker chooses a method that the type declares or a builtin one. -/
theorem callee?_eq_some {cx : ClassContext} {t : TypeRef} {name : String}
    {statics : List Argument} {params : List TypeRef} {result : StaticType}
    (chosen : callee? cx (.ref t) name statics = some (params, result)) :
    (∃ target m, t = .named target ∧ target ∉ Builtin.all ∧
        select? cx (cx.methodsOf target) name statics = some m ∧
        params = m.method.params ∧ result = .of m.method.returnType) ∨
      ∃ b, BuiltinMethod.find? (.ref t) name statics.length = some b ∧
        params = b.params ∧ result = .of b.returnType := by
  unfold callee? at chosen
  simp only at chosen
  split at chosen
  · rename_i m declared
    cases chosen
    rw [Option.bind_eq_some_iff] at declared
    obtain ⟨target, named, selected⟩ := declared
    split at selected
    · cases selected
    · rename_i notBuiltin
      refine .inl ⟨target, m, ?_, ?_, selected, rfl, rfl⟩
      · cases t <;> cases named
        rfl
      · simpa using notBuiltin
  · rw [Option.bind_eq_some_iff] at chosen
    obtain ⟨b, found, chosen⟩ := chosen
    rw [Option.ite_none_right_eq_some] at chosen
    cases chosen.2
    exact .inr ⟨b, found, rfl, rfl⟩

/-- Only objects and `null` are of a type that is not builtin. -/
theorem builtin_of_isReference {v : Value} (notObject : ∀ o, v ≠ .object o) (notNull : v ≠ .null)
    {target : String} (ofType : v.isInstanceOf W.tables (.named target) = true) :
    target ∈ Builtin.all := by
  rw [Value.isInstanceOf_named, Bool.or_eq_true, beq_iff_eq] at ofType
  rcases ofType with rfl | href
  · decide
  · cases v <;> simp only [Value.isReference, beq_iff_eq, Bool.false_eq_true] at href
    case null => exact absurd rfl notNull
    case object => exact absurd rfl (notObject _)
    all_goals
      subst href
      decide

/-- What a call gives is of the return type of the method that the checker has chosen. -/
theorem holds_of_answers (linked : W.Linked) {t : TypeRef} {name : String} {args : List Argument}
    {params : List TypeRef} {result : StaticType}
    (chosen : callee? (W.context n) (.ref t) name args = some (params, result))
    (serves : ∀ type, t = .named type → W.Serves n ⟨some type, name, args⟩)
    {receiver v : Value} {values : List Value} (known : W.Knows receiver)
    (ofType : receiver.isInstanceOf W.tables t = true)
    (passed : W.Passed params (args.map (·.type)) values) (hv : W.Knows v)
    (answers : W.Answers receiver name values v) : result.Holds W.tables v := by
  have length : values.length = args.length := passed.length_eq.trans (List.length_map _)
  have other : (∀ o, receiver ≠ .object o) → receiver ≠ .null →
      (∀ t b, receiver.isInstanceOf W.tables t = true →
        BuiltinMethod.find? (.ref t) name values.length = some b →
        (StaticType.of b.returnType).Holds W.tables v) → result.Holds W.tables v := by
    intro notObject notNull builtin
    rcases callee?_eq_some chosen with ⟨target, _, rfl, notBuiltin, _⟩ | ⟨b, found, _, rfl⟩
    · exact absurd (builtin_of_isReference notObject notNull ofType) notBuiltin
    · exact builtin t b ofType (by rw [length]; exact found)
  cases receiver with
  | null => exact answers.elim
  | object o =>
    obtain ⟨choice, given, holds⟩ := answers
    cases t with
    | named target =>
      have below : o.cls.isSubtypeOf W.tables target = true := by
        rw [Value.isInstanceOf_named, Bool.or_eq_true, beq_iff_eq] at ofType
        rcases ofType with rfl | below
        · simp [LoadedClass.isSubtypeOf]
        · exact below
      have picks : W.Picks n ⟨some target, name, args⟩ params o.cls choice :=
        .on rfl (linked.instances o known) below passed given
      exact serves target rfl params result chosen _ _ picks v hv holds
    | _ => cases ofType
  | _ => exact other (by simp) (by simp) answers

/-- A call on a value. -/
theorem Evaluates.invoke (linked : W.Linked) {t : TypeRef} {name : String} {args : List Argument}
    {params : List TypeRef} {result : StaticType}
    (chosen : callee? (W.context n) (.ref t) name args = some (params, result))
    (serves : ∀ type, t = .named type → W.Serves n ⟨some type, name, args⟩)
    {receiver : Code.Expr} {codes : List Code.Expr} (hr : W.Evaluates n vars receiver (.ref t))
    (hargs : W.EvaluatesAll n vars params (args.map (·.type)) codes) :
    W.Evaluates n vars (.invoke receiver name codes) result := by
  intro calls frame sound hframe
  refine (hr calls frame sound hframe).bind fun r hr => ?_
  refine (hargs calls frame sound hframe).bind fun vs passed => ?_
  refine (Body.Gives.lift (sound.invoke r name vs hr.1 passed.known)).mono fun v hv => ⟨hv.1, ?_⟩
  exact holds_of_answers linked chosen serves hr.1 hr.2 passed hv.1 hv.2

/-- A call that passes over the class. -/
theorem Evaluates.invokeSuper (valid : W.Valid) {name : String} {args : List Argument}
    {params : List TypeRef} {result : StaticType}
    (chosen : superCallee? (W.context n) name args = some (params, result))
    (serves : W.Serves n ⟨none, name, args⟩) {codes : List Code.Expr}
    (hargs : W.EvaluatesAll n vars params (args.map (·.type)) codes) :
    W.Evaluates n vars (.invokeSuper name codes) result := by
  intro calls frame sound hframe
  refine (hargs calls frame sound hframe).bind fun vs passed => ?_
  refine (Body.Gives.this hframe).bind fun o ho => ?_
  refine (Body.Gives.lift (invokeInherited_keeps valid sound ho.1 passed.known)).mono ?_
  rintro v ⟨hv, choice, given, holds⟩
  rw [ho.2] at given
  exact ⟨hv, serves params result chosen _ _ (.above rfl hframe.cls passed given) v hv holds⟩

end World

end Classwright

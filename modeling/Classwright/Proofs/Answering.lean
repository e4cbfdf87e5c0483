import Classwright.Proofs.Patching

/-!
# A call of a proxy

While a proxy holds what it was given, a call of it goes one way: the first abstract method that
takes the arguments is told to the handler, with the arguments as it takes them, and what the
handler answers is fitted to the type that the method returns.
-/

namespace Classwright

open Check

/-- The abstract methods of this name and arity, in the order of declaration. -/
def Descriptor.overloads (d : Descriptor) (name : String) (arity : Nat) : List Method :=
  d.abstractMethods.filter fun m => m.name == name && m.arity == arity

/-- The first of the abstract methods of this name that takes the arguments, with the arguments as
it takes them. -/
def Descriptor.taker? (d : Descriptor) (tables : Tables) (name : String) (args : List Value) :
    Option (Method × List Value) :=
  (d.overloads name args.length).findSome? fun m =>
    (Value.coerceAll tables m.params args).map (m, ·)

namespace Delegation

/-- What the caller gets for an answer of the handler. -/
def answered (tables : Tables) (type : TypeRef) (v : Value) : Except Failure Value :=
  if type = .void then .ok .null
  else if type = .object then .ok v
  else
    match if v.isInstanceOf tables type then v.coerceTo tables type else none with
    | some w => .ok w
    | none => .error (.invalidResult type.canonicalName v.kindName)

/-- One call of the handler, with its answer fitted to what the method returns. -/
def forward (depth handler : Nat) (contract : Descriptor) (m : Method) (args : List Value) :
    Run Value :=
  Run.nested depth do
    let v ← invokeHandler (.within (unlimited - 1)) handler contract m args
    Run.ofExcept (answered (← Run.tables) m.returnType v)

variable {contract : Descriptor} {depth handler : Nat}

/-! ### Which method is called -/

theorem overloads_code (name : String) (arity : Nat) :
    (code contract).methods.filter (fun m => m.name == name && m.params.length == arity)
      = (contract.overloads name arity).map (methodCode contract) :=
  List.filter_map

/-- The method that is found in the class is the implementation of the one that takes the
arguments. -/
theorem findMethod_eq {c : LoadedClass} (generated : Generated contract depth c) (tables : Tables)
    (name : String) (args : List Value) : c.findMethod tables name args
      = match contract.overloads name args.length with
        | [] => .ok none
        | first :: _ =>
          match contract.taker? tables name args with
          | some (m, taken) => .ok (some (methodCode contract m, taken))
          | none => .error (.illegalArgument
              (.notApplicable c.code.name first.signature (args.map (·.kindName)))) := by
  have found : ∀ ms : List Method,
      (ms.map (methodCode contract)).findSome? (fun m =>
        (Value.coerceAll tables m.params args).map (m, ·))
      = (ms.findSome? fun m => (Value.coerceAll tables m.params args).map (m, ·)).map fun p =>
          (methodCode contract p.1, p.2) := by
    intro ms
    induction ms with
    | nil => rfl
    | cons m ms ih =>
      have params : (methodCode contract m).params = m.params := rfl
      rw [List.map_cons, List.findSome?_cons, List.findSome?_cons, ih, params]
      cases Value.coerceAll tables m.params args <;> rfl
  unfold LoadedClass.findMethod Descriptor.taker?
  rw [generated.code, overloads_code]
  cases contract.overloads name args.length with
  | nil => rfl
  | cons first others =>
    rw [List.map_cons]
    dsimp only
    rw [← List.map_cons, found]
    cases (first :: others).findSome? fun m =>
      (Value.coerceAll tables m.params args).map (m, ·) with
    | none => rfl
    | some p => rfl

theorem taker?_spec {tables : Tables} {name : String} {args taken : List Value} {m : Method}
    (found : contract.taker? tables name args = some (m, taken)) :
    m ∈ contract.abstractMethods ∧ m.name = name ∧ m.arity = args.length ∧
      Value.coerceAll tables m.params args = some taken := by
  obtain ⟨m', member, made⟩ := List.exists_of_findSome?_eq_some found
  obtain ⟨taken', made, same⟩ := Option.map_eq_some_iff.1 made
  cases same
  obtain ⟨abstract, fits⟩ := List.mem_filter.1 member
  rw [Bool.and_eq_true, beq_iff_eq, beq_iff_eq] at fits
  exact ⟨abstract, fits.1, fits.2, made⟩

/-! ### What its body does -/

end Delegation

section

variable {α β : Type} {s t : Store}

theorem Run.nested_congr {limit : Nat} {body body' : Run α}
    (same : body { s with depth := s.depth + 1 } = body' { s with depth := s.depth + 1 }) :
    Run.nested limit body s = Run.nested limit body' s := by
  unfold Run.nested
  rw [same]

namespace Body

/-- The part of a body gives a value and changes nothing. -/
def Reads (body : Body α) (locals : List Value) (s : Store) (a : α) : Prop :=
  body locals s = (.ok (a, locals), s)

variable {locals : List Value}

theorem Reads.bind {body : Body α} {next : α → Body β} {a : α} (h : body.Reads locals s a) :
    (body >>= next) locals s = next a locals s :=
  Run.bind_value h

variable {calls : Calls} {o : Object} {frame : Frame}

theorem reads_field (this : frame.this? = some o) {slot : Nat} {v : Value}
    (there : (s.fields o)[slot]? = some v) :
    Reads (eval calls frame (.field slot)) locals s v := by
  have read : Run.readField o slot s = (.ok v, s) := by
    change (match (s.fields o)[slot]? with
      | some v => pure v
      | none => Run.fail _ : Run Value) s = _
    rw [there]
    rfl
  have own : Reads frame.this locals s o := by
    rw [Frame.this, this]
    rfl
  rw [eval]
  exact own.bind.trans (Run.bind_value read)

theorem reads_var {slot : Nat} {v : Value} (there : locals[slot]? = some v) :
    Reads (eval calls frame (.var slot)) locals s v := by
  rw [eval]
  change (match locals[slot]? with
    | some v => pure v
    | none => Body.fail _ : Body Value) locals s = _
  rw [there]
  rfl

theorem reads_all {es : List Code.Expr} {vs : List Value}
    (each : List.Forall₂ (fun e v => Reads (eval calls frame e) locals s v) es vs) :
    Reads (evalAll calls frame es) locals s vs := by
  induction each with
  | nil =>
    rw [evalAll]
    rfl
  | @cons e v es vs first _ ih =>
    rw [evalAll]
    exact first.bind.trans ih.bind

end Body

end

namespace Delegation

variable {contract : Descriptor} {depth handler : Nat} {s : Store} {o : Object}

theorem reads_vars (calls : Calls) (frame : Frame) (args : List Value) :
    List.Forall₂ (fun e v => Body.Reads (eval calls frame e) args s v)
      ((List.range args.length).map .var) args := by
  rw [List.forall₂_iff_get]
  refine ⟨by simp, fun i inside there => ?_⟩
  have index : ((List.range args.length).map Code.Expr.var).get ⟨i, inside⟩ = .var i := by simp
  rw [index]
  exact Body.reads_var (List.getElem?_eq_getElem there)

theorem holdings_method {m : Method} (member : m ∈ contract.methods) :
    (holdings contract handler)[methodSlot contract m]? = some (.method m) := by
  have inside : contract.methods.idxOf m < contract.methods.length :=
    List.idxOf_lt_length_of_mem member
  change (contract.methods.map Value.method)[contract.methods.idxOf m]? = _
  rw [List.getElem?_map, List.getElem?_eq_getElem inside, List.getElem_idxOf]
  rfl

/-- The body of a method calls the handler with the interface, the descriptor and the arguments. -/
theorem eval_callCode (calls : Calls) {frame : Frame} (this : frame.this? = some o)
    (holds : s.fields o = holdings contract handler) {m : Method} (member : m ∈ contract.methods)
    {args : List Value} (arity : m.arity = args.length) :
    eval calls frame (callCode (methodSlot contract m) m.arity) args s
      = (do
          let v ← calls.invoke (.handler handler) "call" (.type contract :: .method m :: args)
          return (v, args) : Run (Value × List Value)) s := by
  have receiver : Body.Reads (eval calls frame (.field 0)) args s (.handler handler) :=
    Body.reads_field this (by rw [holds]; rfl)
  have given : Body.Reads (evalAll calls frame (.field 1 :: .field (methodSlot contract m)
      :: (List.range m.arity).map .var)) args s (.type contract :: .method m :: args) := by
    refine Body.reads_all (.cons (Body.reads_field this (by rw [holds]; rfl)) (.cons ?_ ?_))
    · exact Body.reads_field this (by rw [holds]; exact holdings_method member)
    · rw [arity]
      exact reads_vars calls frame args
  rw [callCode, eval]
  exact receiver.bind.trans given.bind

/-- A checked cast leaves what is of the type, and fails with anything else. -/
theorem castTo_check {type : TypeRef} (novoid : type ≠ .void) (v : Value) (s : Store) :
    castTo type .check v s
      = (if v.isInstanceOf s.tables type then pure v
        else Run.fail (.invalidResult type.canonicalName v.kindName) : Run Value) s := by
  cases type with
  | void => exact absurd rfl novoid
  | primitive kind =>
    change (match if v.primitive? = some kind then some v else none with
      | some v => pure v
      | none => Run.fail _ : Run Value) s = (if v.primitive? == some kind then _ else _ : Run Value) s
    by_cases same : v.primitive? = some kind
    · rw [if_pos same, if_pos (beq_iff_eq.2 same)]
    · rw [if_neg same, if_neg (by simpa using same)]
  | named name =>
    change (match if v.isInstanceOf s.tables (.named name) then some v else none with
      | some v => pure v
      | none => Run.fail _ : Run Value) s = _
    split <;> rfl
  | array element =>
    change (match if v.isInstanceOf s.tables (.array element) then some v else none with
      | some v => pure v
      | none => Run.fail _ : Run Value) s = _
    split <;> rfl

/-- A checked cast whose value is fitted to the type that it checked. -/
theorem castTo_coerce {type : TypeRef} (novoid : type ≠ .void) (noObject : type ≠ .object)
    (v : Value) (s : Store) : (castTo type .check v >>= Run.coerce type) s
      = Run.ofExcept (answered s.tables type v) s := by
  have cast := castTo_check novoid v s
  unfold answered
  rw [if_neg novoid, if_neg noObject]
  by_cases fits : v.isInstanceOf s.tables type = true
  · rw [if_pos fits] at cast ⊢
    rw [Run.bind_value cast]
    change (match v.coerceTo s.tables type with
      | some v => pure v
      | none => Run.fail _ : Run Value) s = _
    cases v.coerceTo s.tables type <;> rfl
  · rw [if_neg fits] at cast ⊢
    rw [Run.bind_stop cast]
    rfl

/-- How a body of one statement ends, whose only variables are the parameters. -/
theorem runBody_single {calls : Calls} {frame : Frame} {args : List Value} {stmt : Code.Stmt}
    {t : Store} {result : Except Stop (Flow × List Value)}
    (ran : exec calls frame stmt args s = (result, t)) :
    runBody calls frame args.length args [stmt] s = (result.map (·.1), t) := by
  have start : args ++ List.replicate (args.length - args.length) Value.null = args := by simp
  have all : execAll calls frame [stmt] args s = (result, t) := by
    rw [execAll]
    cases result with
    | error stop => exact Run.bind_stop ran
    | ok p =>
      obtain ⟨flow, locals⟩ := p
      refine (Run.bind_value ran).trans ?_
      cases flow <;> rfl
  unfold runBody
  rw [start]
  change (ExceptT.bindCont (fun p : Flow × List Value => (pure p.1 : Run Flow))
    (execAll calls frame [stmt] args s).1) (execAll calls frame [stmt] args s).2 = _
  rw [all]
  cases result <;> rfl

/-- How the statement of a method ends, by how its call of the handler does. -/
theorem exec_answerCode {calls : Calls} {frame : Frame} {call : Code.Expr} {args : List Value}
    {H : Run Value} (called : eval calls frame call args s
      = (do return (← H, args) : Run (Value × List Value)) s) (type : TypeRef) :
    exec calls frame (answerCode type call) args s
      = (do
          let v ← H
          if type = .void then return (.normal, args)
          else if type = .object then return (.returned v, args)
          else return (.returned (← castTo type .check v), args) : Run (Flow × List Value)) s := by
  cases out : H s with
  | mk result t =>
    have returns : type ≠ .void → answerCode type call
        = .ret (some (if type == .object then call else .cast type .check call)) := by
      intro novoid
      cases type with
      | void => exact absurd rfl novoid
      | _ => rfl
    cases result with
    | error stop =>
      rw [Run.bind_stop out] at called
      rw [Run.bind_stop out]
      by_cases void : type = .void
      · subst void
        rw [answerCode, exec]
        exact Run.bind_stop called
      · rw [returns void, exec]
        split
        · exact Run.bind_stop called
        · rw [eval]
          exact Run.bind_stop (Run.bind_stop called)
    | ok v =>
      rw [Run.bind_value out] at called
      rw [Run.bind_value out]
      by_cases void : type = .void
      · subst void
        rw [answerCode, exec]
        exact Run.bind_value called
      · rw [returns void, exec, if_neg void]
        by_cases isObject : type = .object
        · rw [if_pos isObject, if_pos (beq_iff_eq.2 isObject)]
          exact Run.bind_value called
        · rw [if_neg isObject, if_neg (by simpa using isObject), eval]
          have cast : (do
              let v ← eval calls frame call
              castTo type .check v : Body Value) args s
            = (do return (← castTo type .check v, args) : Run (Value × List Value)) t :=
            Run.bind_value called
          cases made : castTo type .check v t with
          | mk result u =>
            cases result with
            | error stop =>
              rw [Run.bind_stop made] at cast ⊢
              exact Run.bind_stop cast
            | ok w =>
              rw [Run.bind_value made] at cast ⊢
              exact Run.bind_value cast

/-- What a method gives is what the handler gives, fitted to the type that the method returns. -/
theorem callMethod_eq {calls : Calls} (holds : s.fields o = holdings contract handler)
    {m : Method} (abstract : m ∈ contract.abstractMethods) {args : List Value}
    (arity : m.arity = args.length) :
    callMethod calls o (methodCode contract m) args s
      = (Run.nested o.cls.maxCallDepth do
          let v ← calls.invoke (.handler handler) "call" (.type contract :: .method m :: args)
          Run.ofExcept (answered (← Run.tables) m.returnType v) : Run Value) s := by
  unfold callMethod
  refine Run.nested_congr ?_
  generalize entered : ({ s with depth := s.depth + 1 } : Store) = t
  have holds' : t.fields o = holdings contract handler := by
    rw [← entered]
    exact holds
  have this : (⟨some o, o.cls⟩ : Frame).this? = some o := rfl
  have called := eval_callCode calls this holds' (mem_of_mem_abstractMethods abstract) arity
  have ended := exec_answerCode called m.returnType
  generalize calls.invoke (.handler handler) "call" (.type contract :: .method m :: args) = H
    at ended ⊢
  rw [show (methodCode contract m).returnType = m.returnType from rfl]
  change (runBody calls ⟨some o, o.cls⟩ m.arity args
      [answerCode m.returnType (callCode (methodSlot contract m) m.arity)] >>= _) t = _
  rw [arity] at ended ⊢
  cases out : H t with
  | mk result u =>
    cases result with
    | error stop =>
      rw [Run.bind_stop out] at ended ⊢
      exact Run.bind_stop (runBody_single ended)
    | ok v =>
      rw [Run.bind_value out] at ended ⊢
      change _ = Run.ofExcept (answered u.tables m.returnType v) u
      by_cases void : m.returnType = .void
      · rw [if_pos void] at ended
        rw [Run.bind_value (runBody_single ended), void]
        rfl
      · rw [if_neg void] at ended
        have visible : m.returnType.isVoid = false := by
          cases type : m.returnType with
          | void => exact absurd type void
          | _ => rfl
        by_cases isObject : m.returnType = .object
        · rw [if_pos isObject] at ended
          rw [Run.bind_value (runBody_single ended), isObject]
          rfl
        · rw [if_neg isObject] at ended
          have fitted := castTo_coerce void isObject v u
          cases made : castTo m.returnType .check v u with
          | mk result w =>
            cases result with
            | error stop =>
              rw [Run.bind_stop made] at ended fitted
              rw [Run.bind_stop (runBody_single ended), ← fitted]
            | ok x =>
              rw [Run.bind_value made] at ended fitted
              rw [Run.bind_value (runBody_single ended), ← fitted, visible]
              rfl

theorem Object.invoke_within (o : Object) (name : String) (args : List Value) :
    o.invoke name args = invokeObject (.within unlimited) o name args := rfl

theorem invoke_handler (m : Method) (args : List Value) :
    (Calls.within unlimited).invoke (.handler handler) "call" (.type contract :: .method m :: args)
      = invokeHandler (.within (unlimited - 1)) handler contract m args := by
  generalize same : unlimited = rounds
  cases rounds with
  | zero => exact absurd same (by decide)
  | succ rounds => rfl

/-- A call of a proxy that holds what it was given, however calls are made. -/
theorem invokeObject_eq (calls : Calls) (generated : Generated contract depth o.cls)
    (holds : s.fields o = holdings contract handler) (name : String) (args : List Value) :
    invokeObject calls o name args s
      = match contract.overloads name args.length with
        | [] => invokeInherited calls o name args s
        | first :: _ =>
          match contract.taker? s.tables name args with
          | some (m, taken) => (Run.nested depth do
              let v ← calls.invoke (.handler handler) "call" (.type contract :: .method m :: taken)
              Run.ofExcept (answered (← Run.tables) m.returnType v) : Run Value) s
          | none => (.error (.failed (.illegalArgument (.notApplicable o.cls.code.name
              first.signature (args.map (·.kindName))))), s) := by
  have tables : Run.tables s = (.ok s.tables, s) := rfl
  rw [invokeObject, Run.bind_value tables, findMethod_eq generated]
  cases contract.overloads name args.length with
  | nil => rfl
  | cons first others =>
    dsimp only
    cases found : contract.taker? s.tables name args with
    | none => rfl
    | some p =>
      obtain ⟨m, taken⟩ := p
      obtain ⟨abstract, _, _, made⟩ := taker?_spec found
      have length : m.arity = taken.length := (length_of_coerceAll made).symm
      have called : callMethod calls o (methodCode contract m) taken s = _ :=
        callMethod_eq holds abstract length
      rw [generated.maxCallDepth] at called
      exact called

/-- A call of a proxy that holds what it was given. -/
theorem invoke_eq (generated : Generated contract depth o.cls)
    (holds : s.fields o = holdings contract handler) (name : String) (args : List Value) :
    o.invoke name args s
      = match contract.overloads name args.length with
        | [] => invokeInherited (.within unlimited) o name args s
        | first :: _ =>
          match contract.taker? s.tables name args with
          | some (m, taken) => forward depth handler contract m taken s
          | none => (.error (.failed (.illegalArgument (.notApplicable o.cls.code.name
              first.signature (args.map (·.kindName))))), s) := by
  have called := invokeObject_eq (.within unlimited) generated holds name args
  rw [Object.invoke_within, called]
  simp only [invoke_handler, forward]

end Delegation

end Classwright

import Classwright.Proofs.Initializing
import Classwright.Proofs.Stability

/-!
# Runs that go alike

The same code is run twice, and what the calls in it come to is found out in two ways. Where both
ways agree on every call that can come up, the two runs end alike and leave the same store. What can
come up is a matter of the objects at hand and of the depth of the calls in progress: a setting says
what is known of the store and of the classes of the objects, and that depth is counted besides.
-/

namespace Classwright

/-! ### Code without loops -/

mutual

/-- No loop is in the statement. -/
def Code.Stmt.loopFree : Code.Stmt → Bool
  | .loop _ _ => false
  | .cond _ t e => Code.Stmt.allLoopFree t && Code.Stmt.allLoopFree e
  | .block body => Code.Stmt.allLoopFree body
  | .expr _ | .ret _ | .throw _ => true

def Code.Stmt.allLoopFree : List Code.Stmt → Bool
  | [] => true
  | s :: ss => s.loopFree && Code.Stmt.allLoopFree ss

end

/-- No body of the class has a loop. Initial values are expressions, which have none. -/
def Code.Class.loopFree (c : Code.Class) : Bool :=
  (c.constructors.all fun k => Code.Stmt.allLoopFree k.body)
    && c.methods.all fun m => Code.Stmt.allLoopFree m.body

theorem Code.Class.loopFree_method {c : Code.Class} (free : c.loopFree = true) {m : Code.Method}
    (member : m ∈ c.methods) : Code.Stmt.allLoopFree m.body = true := by
  simp only [loopFree, Bool.and_eq_true, List.all_eq_true] at free
  exact free.2 m member

theorem Code.Class.loopFree_constructor {c : Code.Class} (free : c.loopFree = true)
    {k : Code.Constructor} (member : k ∈ c.constructors) :
    Code.Stmt.allLoopFree k.body = true := by
  simp only [loopFree, Bool.and_eq_true, List.all_eq_true] at free
  exact free.1 k member

/-! ### Values over some classes -/

namespace Value

/-- All objects in the value are of these classes. -/
def Over (Q : LoadedClass → Prop) (v : Value) : Prop := ∀ o ∈ v.objects, Q o.cls

/-- All objects in the values are of these classes. -/
def AllOver (Q : LoadedClass → Prop) (vs : List Value) : Prop := ∀ v ∈ vs, v.Over Q

variable {Q : LoadedClass → Prop} {v w : Value}

theorem over_object {o : Object} : (Value.object o).Over Q ↔ Q o.cls := by
  simp [Over, objects]

theorem over_of_plain (plain : v.Plain) : v.Over Q := by
  cases v with
  | object _ | array _ | type _ | method _ | handler _ => exact plain.elim
  | _ => exact fun _ member => absurd member List.not_mem_nil

theorem Over.coerceTo (held : v.Over Q) {tables : Tables} {t : TypeRef}
    (made : v.coerceTo tables t = some w) : w.Over Q := by
  cases t with
  | primitive kind =>
    have own := (isInstanceOf_primitive kind w).1 (isInstanceOf_of_coerceTo made)
    exact over_of_plain (plain_of_primitive? own)
  | void => simp [Value.coerceTo, isInstanceOf] at made
  | named name | array element =>
    simp only [Value.coerceTo, Option.ite_none_right_eq_some, Option.some.injEq] at made
    exact made.2 ▸ held

theorem allOver_nil : AllOver Q [] := fun _ member => absurd member List.not_mem_nil

theorem AllOver.coerceAll {tables : Tables} {types : List TypeRef} {vs taken : List Value}
    (held : AllOver Q vs) (made : Value.coerceAll tables types vs = some taken) :
    AllOver Q taken := by
  induction types generalizing vs taken with
  | nil =>
    cases vs with
    | nil =>
      cases made
      exact held
    | cons v vs => cases made
  | cons t ts ih =>
    cases vs with
    | nil => cases made
    | cons v vs =>
      simp only [Value.coerceAll, Option.bind_eq_bind, Option.bind_eq_some_iff,
        Option.pure_def, Option.some.injEq] at made
      obtain ⟨w, first, ws, rest, rfl⟩ := made
      obtain ⟨hv, hvs⟩ := List.forall_mem_cons.1 held
      exact List.forall_mem_cons.2 ⟨hv.coerceTo first, ih hvs rest⟩

theorem AllOver.set {vs : List Value} (held : AllOver Q vs) (slot : Nat) (hw : w.Over Q) :
    AllOver Q (vs.set slot w) := fun v member => by
  rcases List.mem_or_eq_of_mem_set member with member | rfl
  · exact held v member
  · exact hw

/-- Arguments, and slots for variables behind them. -/
theorem AllOver.frame {args : List Value} (held : AllOver Q args) (count : Nat) :
    AllOver Q (args ++ List.replicate count .null) := fun v member => by
  rcases List.mem_append.1 member with member | member
  · exact held v member
  · rw [(List.mem_replicate.1 member).2]
    exact over_of_plain trivial

theorem allOver_defaults (fields : List Code.Field) :
    AllOver Q (fields.map fun (f : Code.Field) => Value.default f.type) := fun v member => by
  obtain ⟨f, _, rfl⟩ := List.mem_map.1 member
  exact over_of_plain (plain_default f.type)

end Value

/-- All that the request speaks of is of these classes. -/
def HostRequest.Over (Q : LoadedClass → Prop) : HostRequest → Prop
  | invoke o _ args => Q o.cls ∧ Value.AllOver Q args
  | instantiate c => Q c
  | getField .. => True
  | setField _ _ _ _ v => v.Over Q

/-! ### Two runs -/

/-- Both runs end alike and leave the same store. Of how they end, this is known. -/
structure Run.Agree {α : Type} (I : Store → Prop) (S : Stop → Prop) (run other : Run α)
    (P : α → Prop) : Prop where
  ensures : Run.Ensures I S run P
  same : ∀ s, I s → other s = run s

namespace Run.Agree

variable {I : Store → Prop} {S : Stop → Prop} {α β : Type} {P Q : α → Prop}

theorem refl {run : Run α} (h : Run.Ensures I S run P) : Run.Agree I S run run P :=
  ⟨h, fun _ _ => rfl⟩

theorem pure {a : α} (h : P a) : Run.Agree I S (pure a) (pure a) P := refl (.pure h)

theorem mono {run other : Run α} (h : Run.Agree I S run other P) (weaker : ∀ a, P a → Q a) :
    Run.Agree I S run other Q := ⟨h.ensures.mono weaker, h.same⟩

theorem bind {R : β → Prop} {run other : Run α} {next next' : α → Run β}
    (h : Run.Agree I S run other P) (hnext : ∀ a, P a → Run.Agree I S (next a) (next' a) R) :
    Run.Agree I S (run >>= next) (other >>= next') R where
  ensures := h.ensures.bind fun a ha => (hnext a ha).ensures
  same := fun s hs => by
    have both := h.same s hs
    obtain ⟨kept, ended⟩ := h.ensures s hs
    cases ran : run s with
    | mk result t =>
      rw [ran] at both kept ended
      cases result with
      | error stop => rw [bind_stop ran, bind_stop both]
      | ok a =>
        rw [bind_value ran, bind_value both]
        exact (hnext a ended).same t kept

theorem map {R : β → Prop} {run other : Run α} {f : α → β}
    (h : Run.Agree I S run other fun a => R (f a)) :
    Run.Agree I S (f <$> run) (f <$> other) R := by
  rw [map_eq_pure_bind, map_eq_pure_bind]
  exact h.bind fun _ ha => pure ha

/-- Two runs that start by looking at the store. -/
theorem get {next next' : Store → Run β} {R : β → Prop}
    (h : ∀ s, I s → Run.Agree I S (next s) (next' s) R) :
    Run.Agree I S (MonadState.get >>= next) (MonadState.get >>= next') R :=
  ⟨.get fun s hs => (h s hs).ensures, fun s hs => (h s hs).same s hs⟩

theorem mapFailure {change : Failure → Failure} {run other : Run α}
    (h : Run.Agree I S run other P) (hchange : ∀ f, S (.failed f) → S (.failed (change f))) :
    Run.Agree I S (run.mapFailure change) (other.mapFailure change) P where
  ensures := .mapFailure change h.ensures hchange
  same := fun s hs => by
    change (Except.mapError _ <$> other) s = (Except.mapError _ <$> run) s
    change (Except.mapError _ (other s).1, (other s).2) = (Except.mapError _ (run s).1, (run s).2)
    rw [h.same s hs]

theorem outcome {run other : Run α} (h : Run.Agree I S run other P) :
    Run.Agree I S run.outcome other.outcome fun r => ∀ a, r = .ok a → P a where
  ensures := fun s hs => by
    obtain ⟨kept, ended⟩ := h.ensures s hs
    unfold Run.outcome
    cases ran : run s with
    | mk result t =>
      rw [ran] at kept ended
      rcases result with (f | _) | a
      · exact ⟨kept, nofun⟩
      · exact ⟨kept, ended⟩
      · refine ⟨kept, ?_⟩
        rintro _ ⟨⟩
        exact ended
  same := fun s hs => by
    unfold Run.outcome
    rw [h.same s hs]

end Run.Agree

/-- The same of two parts of bodies, which keep an invariant of the variables. -/
def Body.Agree {α : Type} (I : Store → Prop) (S : Stop → Prop) (J : List Value → Prop)
    (body other : Body α) (P : α → Prop) : Prop :=
  ∀ locals, J locals → Run.Agree I S (body locals) (other locals) fun r => J r.2 ∧ P r.1

namespace Body.Agree

variable {I : Store → Prop} {S : Stop → Prop} {J : List Value → Prop} {α β : Type} {P : α → Prop}

theorem refl {body : Body α} (h : Body.Ensures I S J body P) : Body.Agree I S J body body P :=
  fun locals hl => .refl (h locals hl)

theorem pure {a : α} (h : P a) : Body.Agree I S J (pure a) (pure a) P := refl (.pure h)

theorem bind {R : β → Prop} {body other : Body α} {next next' : α → Body β}
    (h : Body.Agree I S J body other P)
    (hnext : ∀ a, P a → Body.Agree I S J (next a) (next' a) R) :
    Body.Agree I S J (body >>= next) (other >>= next') R :=
  fun locals hl => (h locals hl).bind fun r hr => hnext r.1 hr.2 r.2 hr.1

theorem lift {run other : Run α} (h : Run.Agree I S run other P) :
    Body.Agree I S J (liftM run) (liftM other) P := fun locals hl => by
  change Run.Agree I S (run >>= fun a => Pure.pure (a, locals))
    (other >>= fun a => Pure.pure (a, locals)) _
  exact h.bind fun a ha => .pure ⟨hl, ha⟩

/-- As many rounds of two loops. -/
theorem loop {condition condition' : Body Bool} {body body' : Body Flow} {R : Flow → Prop}
    (exhausted : S .exhausted) (hcondition : Body.Agree I S J condition condition' fun _ => True)
    (hbody : Body.Agree I S J body body' R) (normal : R .normal) (rounds : Nat) :
    Body.Agree I S J (Body.loop condition body rounds) (Body.loop condition' body' rounds) R := by
  induction rounds with
  | zero => exact refl fun _ _ => .exhausted exhausted
  | succ rounds ih =>
    rw [Body.loop_succ, Body.loop_succ]
    refine hcondition.bind fun go _ => ?_
    cases go with
    | false => exact pure normal
    | true =>
      refine hbody.bind fun flow returned => ?_
      cases flow with
      | normal => exact ih
      | returned v => exact pure returned

end Body.Agree

/-! ### What a frame is entered through -/

/-- What is done in the frame of a method. -/
def runFrame (calls : Calls) (o : Object) (m : Code.Method) (args : List Value) : Run Value := do
  match ← runBody calls ⟨some o, o.cls⟩ m.locals args m.body with
  | .returned v => if m.returnType.isVoid then return .null else Run.coerce m.returnType v
  | .normal => return .null

/-- A call on any value, where methods of objects are entered in a way of their own. -/
def invokeThrough (enter : Object → Code.Method → List Value → Run Value) (calls : Calls)
    (receiver : Value) (method : String) (args : List Value) : Run Value :=
  match receiver with
  | .null => Run.fail (.nullReference method)
  | .object o => do
    match ← Run.ofExcept (o.cls.findMethod (← Run.tables) method args) with
    | some (m, args) => enter o m args
    | none => invokeInherited calls o method args
  | receiver =>
    match receiver, method, args with
    | .handler id, "call", .type interface :: .method m :: args =>
      invokeHandler calls id interface m args
    | .handler _, "call", _ => Run.fail (.illegalArgument .handlerCall)
    | _, _, _ =>
      match Builtin.ofValue receiver method args with
      | some result => Run.ofExcept result
      | none => Run.fail (.noSuchMethod receiver.kindName method args.length)

theorem invokeValue_through (calls : Calls) :
    invokeValue calls = invokeThrough (callMethod calls) calls := by
  funext receiver method args
  rfl

theorem callMethod_eq_nested (calls : Calls) (o : Object) (m : Code.Method) (args : List Value) :
    callMethod calls o m args = Run.nested o.cls.maxCallDepth (runFrame calls o m args) := rfl

/-- A new object, where constructors are entered in a way of their own. -/
def constructThrough (enter : Object → Code.Constructor → Run Flow) (calls : Calls)
    (c : LoadedClass) : Run Object := do
  match c.code.constructors.find? (·.params.isEmpty) with
  | none => Run.fail (.noSuchMethod c.code.name Failure.constructorName 0)
  | some k =>
    if k.visibility = .hidden then
      Run.fail (.illegalAccess c.code.name Failure.constructorName)
    else
      let o ← allocate c
      initFields calls o 0 c.code.fields
      let _ ← enter o k
      return o

/-- Runs a constructor's body in its frame. -/
def callConstructor (calls : Calls) (c : LoadedClass) (o : Object) (k : Code.Constructor) :
    Run Flow :=
  Run.nested c.maxCallDepth (runBody calls ⟨some o, c⟩ k.locals [] k.body)

theorem construct_through (calls : Calls) (c : LoadedClass) :
    construct calls c = constructThrough (callConstructor calls c) calls c := rfl

/-! ### Settings -/

/-- What is known where code runs. -/
structure Setting where
  /-- Of the store, whatever calls are in progress. -/
  store : Store → Prop
  /-- Of the classes of the objects at hand. -/
  cls : LoadedClass → Prop
  /-- Whether a run may use up its rounds. -/
  spent : Prop

namespace Setting

variable (T : Setting)

/-- The store while so many calls are in progress. -/
def At (depth : Nat) (s : Store) : Prop := s.depth = depth ∧ T.store s

def Stops (stop : Stop) : Prop := stop = .exhausted → T.spent

abbrev Over (v : Value) : Prop := v.Over T.cls

abbrev AllOver (vs : List Value) : Prop := Value.AllOver T.cls vs

abbrev Agrees {α : Type} (depth : Nat) (run other : Run α) (P : α → Prop) : Prop :=
  Run.Agree (T.At depth) T.Stops run other P

abbrev Matches {α : Type} (depth : Nat) (body other : Body α) (P : α → Prop) : Prop :=
  Body.Agree (T.At depth) T.Stops T.AllOver body other P

/-- What code does to a store over the classes keeps it so. -/
structure Closed : Prop where
  fields : ∀ {s}, T.store s → ∀ o, T.AllOver (s.fields o)
  statics : ∀ {s}, T.store s → ∀ c, T.AllOver (s.staticsOf c)
  setFields : ∀ {s}, T.store s → ∀ o {vs}, T.AllOver vs → T.store (s.setFields o vs)
  setStatics : ∀ {s}, T.store s → ∀ c {vs}, T.AllOver vs → T.store (s.setStatics c vs)
  pushObject : ∀ {s}, T.store s → ∀ {stored : Instance}, T.AllOver stored.fields →
    T.store { s with objects := s.objects.push stored }
  pushStatics : ∀ {s}, T.store s → ∀ {vs}, T.AllOver vs →
    T.store { s with statics := s.statics.push vs }
  called : ∀ {s}, T.store s → ∀ call, T.store { s with calls := call :: s.calls }
  depth : ∀ {s}, T.store s → ∀ n, T.store { s with depth := n }
  loops : ∀ {c}, T.cls c → T.spent ∨ c.code.loopFree = true

/-- Calls that are carried out in two ways agree. -/
def Invokes (depth : Nat) (call other : Invoke) : Prop :=
  ∀ v method args, T.Over v → T.AllOver args →
    T.Agrees depth (call v method args) (other v method args) T.Over

/-- Host code does alike, whichever way its requests are carried out. -/
structure Hosts (depth : Nat) (calls other : Calls) : Prop where
  native : ∀ {s}, T.store s → ∀ {id type method arity} {code : NativeCode},
    (s.registry id).native? type method arity = some code → ∀ o args, T.cls o.cls →
      T.AllOver args → T.Agrees depth ((code o args).run calls) ((code o args).run other) T.Over
  handler : ∀ {s}, T.store s → ∀ {id : Nat} {code : HandlerCode}, s.handlers[id]? = some code →
    ∀ interface m args, T.AllOver args →
      T.Agrees depth ((code interface m args).run calls) ((code interface m args).run other) T.Over

/-- All that a body relies on agrees. -/
structure Relies (depth : Nat) (calls other : Calls) : Prop where
  invoke : T.Invokes depth calls.invoke other.invoke
  hosts : T.Hosts depth calls other
  rounds : T.spent → other.rounds = calls.rounds

end Setting

namespace Setting

variable {T : Setting} {depth : Nat}

theorem stops_failed (f : Failure) : T.Stops (.failed f) := nofun

/-! ### Steps that call nothing -/

section

variable {α : Type} {P : α → Prop}

theorem fail_agrees (f : Failure) : T.Agrees depth (Run.fail f) (Run.fail f) P :=
  .refl (.fail (stops_failed f))

theorem ofExcept_agrees {result : Except Failure α} (ok : ∀ a, result = .ok a → P a) :
    T.Agrees depth (Run.ofExcept result) (Run.ofExcept result) P :=
  .refl (.ofExcept ok fun f _ => stops_failed f)

end

theorem coerce_agrees (target : TypeRef) {v : Value} (held : T.Over v) :
    T.Agrees depth (Run.coerce target v) (Run.coerce target v) T.Over := by
  refine .get fun s _ => ?_
  cases made : v.coerceTo s.tables target with
  | none => exact fail_agrees _
  | some w => exact .pure (held.coerceTo made)

theorem castTo_agrees (target : TypeRef) (mode : Code.CastMode) {v : Value} (held : T.Over v) :
    T.Agrees depth (castTo target mode v) (castTo target mode v) T.Over := by
  cases target with
  | primitive kind =>
    unfold castTo
    cases mode with
    | convert =>
      dsimp only
      cases made : v.convert kind with
      | none => exact fail_agrees _
      | some w =>
        exact .pure (Value.over_of_plain (Value.plain_of_primitive? (Value.convert_primitive made)))
    | check =>
      dsimp only
      split
      · rename_i w made
        cases (Option.ite_none_right_eq_some.1 made).2
        exact .pure held
      · exact fail_agrees _
  | _ =>
    rw [castTo_reference (fun _ => by simp) mode v]
    exact coerce_agrees _ held

theorem unary_agrees (op : Code.UnaryOp) (v : Value) :
    T.Agrees depth (Run.ofExcept (Arithmetic.unary op v)) (Run.ofExcept (Arithmetic.unary op v))
      T.Over := by
  refine ofExcept_agrees fun w made => ?_
  obtain ⟨kind, own⟩ := Arithmetic.exists_primitive?_unary made
  exact Value.over_of_plain (Value.plain_of_primitive? own)

/-- What a value answers on its own. -/
theorem builtin_agrees (v : Value) (name : String) (args : List Value) :
    T.Agrees depth (match Builtin.ofValue v name args with
      | some result => Run.ofExcept result
      | none => Run.fail (.noSuchMethod v.kindName name args.length))
      (match Builtin.ofValue v name args with
      | some result => Run.ofExcept result
      | none => Run.fail (.noSuchMethod v.kindName name args.length)) T.Over := by
  cases made : Builtin.ofValue v name args with
  | none => exact fail_agrees _
  | some result =>
    refine ofExcept_agrees fun w same => ?_
    cases same
    exact Value.over_of_plain (Value.plain_of_ofValue made)

theorem readField_agrees (closed : T.Closed) (o : Object) (slot : Nat) :
    T.Agrees depth (Run.readField o slot) (Run.readField o slot) T.Over := by
  refine .get fun s hs => ?_
  cases found : (s.fields o)[slot]? with
  | none => exact fail_agrees _
  | some v => exact .pure (closed.fields hs.2 o v (List.mem_of_getElem? found))

theorem readStatic_agrees (closed : T.Closed) (c : LoadedClass) (slot : Nat) :
    T.Agrees depth (Run.readStatic c slot) (Run.readStatic c slot) T.Over := by
  refine .get fun s hs => ?_
  cases found : (s.staticsOf c)[slot]? with
  | none => exact fail_agrees _
  | some v => exact .pure (closed.statics hs.2 c v (List.mem_of_getElem? found))

theorem writeField_agrees (closed : T.Closed) (o : Object) (slot : Nat) {v : Value}
    (held : T.Over v) :
    T.Agrees depth (Run.writeField o slot v) (Run.writeField o slot v) fun _ => True := by
  refine .refl (.get fun s hs => ?_)
  have updated := (closed.fields hs.2 o).set slot held
  dsimp only
  split
  · exact .modify fun t ht => ⟨ht.1, closed.setFields ht.2 o updated⟩
  · exact .fail (stops_failed _)

theorem check_agrees (h : FieldHandle) (o : Object) (writing : Bool) :
    T.Agrees depth (h.check o writing) (h.check o writing) fun _ => True :=
  .refl (h.check_ensures o writing fun f => stops_failed f)

theorem setField_agrees (closed : T.Closed) (h : FieldHandle) (o : Object) {v : Value}
    (held : T.Over v) : T.Agrees depth (h.set o v) (h.set o v) fun _ => True := by
  refine (check_agrees h o true).bind fun _ _ => .get fun s _ => ?_
  cases made : v.coerceTo s.tables h.info.type with
  | none => exact fail_agrees _
  | some w => exact writeField_agrees closed o h.slot (held.coerceTo made)

theorem writeStatic_agrees (closed : T.Closed) (c : LoadedClass) (slot : Nat) {v : Value}
    (held : T.Over v) :
    T.Agrees depth (Run.writeStatic c slot v) (Run.writeStatic c slot v) fun _ => True := by
  refine .refl (.get fun s hs => ?_)
  have updated := (closed.statics hs.2 c).set slot held
  dsimp only
  split
  · exact .modify fun t ht => ⟨ht.1, closed.setStatics ht.2 c updated⟩
  · exact .fail (stops_failed _)

/-- A frame of a method or a constructor belongs to an object of the class. -/
theorem seated_object {o : Object} (ho : T.cls o.cls) :
    ∀ p, (⟨some o, o.cls⟩ : Frame).this? = some p → T.cls p.cls := by
  rintro p ⟨⟩
  exact ho

theorem this_matches {frame : Frame} (seated : ∀ o, frame.this? = some o → T.cls o.cls) :
    T.Matches depth frame.this frame.this fun o => T.cls o.cls := by
  unfold Frame.this
  cases found : frame.this? with
  | none => exact .refl (.fail (stops_failed _))
  | some o => exact .pure (seated o found)

theorem readVar_matches (frame : Frame) (slot : Nat) :
    T.Matches depth (frame.readVar slot) (frame.readVar slot) T.Over := by
  refine .refl fun locals held => ?_
  cases there : locals[slot]? with
  | none =>
    rw [frame.readVar_none there]
    exact Body.Ensures.fail (stops_failed _) locals held
  | some v =>
    rw [frame.readVar_some there]
    exact .pure ⟨held, held v (List.mem_of_getElem? there)⟩

theorem writeVar_matches (frame : Frame) (slot : Nat) {v : Value} (hv : T.Over v) :
    T.Matches depth (frame.writeVar slot v) (frame.writeVar slot v) fun _ => True := by
  refine .refl fun locals held => ?_
  change Run.Ensures _ _ ((if slot < locals.length
    then (modify (·.set slot v) : Body Unit)
    else Body.fail (frame.missing .local_ slot)) locals) _
  split
  · exact .pure ⟨Value.AllOver.set held slot hv, trivial⟩
  · exact Body.Ensures.fail (P := fun _ => True) (stops_failed _) locals held

theorem truth_matches (v : Value) : T.Matches depth (truth v) (truth v) fun _ => True :=
  .refl (.truth (stops_failed _))

/-! ### Steps that call -/

section

variable {call other : Invoke}

theorem textOf_agrees (calls : T.Invokes depth call other) {v : Value} (held : T.Over v) :
    T.Agrees depth (textOf call v) (textOf other v) fun _ => True := by
  cases v with
  | object o =>
    have told := calls (.object o) "toString" [] held Value.allOver_nil
    refine told.bind fun w _ => ?_
    cases w <;> exact .pure trivial
  | _ => exact .pure trivial

theorem binary_agrees (calls : T.Invokes depth call other) (op : BinaryOp) {a b : Value}
    (ha : T.Over a) (hb : T.Over b) :
    T.Agrees depth (binary call op a b) (binary other op a b) T.Over := by
  unfold binary
  split
  · refine (textOf_agrees calls ha).bind fun left _ => ?_
    refine (textOf_agrees calls hb).bind fun right _ => ?_
    exact .pure (Value.over_of_plain trivial)
  · refine ofExcept_agrees fun w made => ?_
    obtain ⟨kind, own⟩ := Arithmetic.exists_primitive?_binary made
    exact Value.over_of_plain (Value.plain_of_primitive? own)

theorem nativeArguments_agrees (tables : Tables) (host : Descriptor) (method : String)
    {args : List Value} (held : T.AllOver args) :
    T.Agrees depth (Run.ofExcept (nativeArguments tables host method args))
      (Run.ofExcept (nativeArguments tables host method args)) T.AllOver := by
  refine ofExcept_agrees fun taken made => ?_
  unfold nativeArguments at made
  split at made
  · cases made
    exact held
  · split at made
    · rename_i found
      cases made
      obtain ⟨m, _, accepted⟩ := List.exists_of_findSome?_eq_some found
      exact Value.AllOver.coerceAll held accepted
    · cases made

theorem plain_of_ofObject {o : Object} {name : String} {args : List Value} {v : Value}
    (made : Builtin.ofObject o name args = some v) : v.Plain := by
  unfold Builtin.ofObject at made
  split at made
  case h_4 => cases made
  all_goals
    cases made
    trivial

end

section

variable {calls other : Calls}

/-- Reading or writing a field gives the same whatever else may be asked for. -/
theorem usesField_agrees (closed : T.Closed) {request : HostRequest} (uses : request.UsesField)
    (within : request.Over T.cls) :
    T.Agrees depth (request.run calls) (request.run other) T.Over := by
  cases request with
  | invoke o method args => exact uses.elim
  | instantiate c => exact uses.elim
  | getField c field accessible o =>
    refine Run.Agree.bind (ofExcept_agrees fun _ _ => trivial) fun h _ => ?_
    exact (check_agrees _ o false).bind fun _ _ => readField_agrees closed o _
  | setField c field accessible o v =>
    refine Run.Agree.bind (ofExcept_agrees fun _ _ => trivial) fun h _ => ?_
    exact (setField_agrees closed _ o within).bind fun _ _ => .pure (Value.over_of_plain trivial)

theorem invokeInherited_agrees (hosts : T.Hosts depth calls other) {o : Object} (ho : T.cls o.cls)
    (name : String) {args : List Value} (held : T.AllOver args) :
    T.Agrees depth (invokeInherited calls o name args) (invokeInherited other o name args)
      T.Over := by
  refine .get fun s hs => ?_
  cases found : s.inheritedNative? o.cls name args.length with
  | some native =>
    obtain ⟨host, code⟩ := native
    obtain ⟨host', _, here⟩ := List.exists_of_findSome?_eq_some found
    obtain ⟨code', registered, pair⟩ := Option.map_eq_some_iff.1 here
    cases pair
    refine (nativeArguments_agrees s.tables host name held).bind fun taken given => ?_
    exact hosts.native hs.2 registered o taken ho given
  | none =>
    dsimp only
    cases made : Builtin.ofObject o name args with
    | none => exact fail_agrees _
    | some v => exact .pure (Value.over_of_plain (plain_of_ofObject made))

theorem invokeHandler_agrees (closed : T.Closed) (hosts : T.Hosts depth calls other) (id : Nat)
    (interface : Descriptor) (m : Method) {args : List Value} (held : T.AllOver args) :
    T.Agrees depth (invokeHandler calls id interface m args)
      (invokeHandler other id interface m args) T.Over := by
  have told : Run.Ensures (T.At depth) T.Stops (modify fun s =>
      { s with calls := ⟨id, interface, m, args⟩ :: s.calls } : Run Unit) fun _ => True :=
    .modify fun s hs => ⟨hs.1, closed.called hs.2 _⟩
  refine Run.Agree.bind (.refl told) fun _ _ => .get fun s hs => ?_
  cases found : s.handlers[id]? with
  | none => exact .pure (Value.over_of_plain trivial)
  | some code => exact hosts.handler hs.2 found interface m args held

end

theorem branch_matches {α : Type} {P : α → Prop} {v : Value} {yes yes' no no' : Body α}
    (hyes : T.Matches depth yes yes' P) (hno : T.Matches depth no no' P) :
    T.Matches depth (do if ← truth v then yes else no) (do if ← truth v then yes' else no') P := by
  refine (truth_matches v).bind fun b _ => ?_
  cases b with
  | true => exact hyes
  | false => exact hno

/-! ### Bodies -/

section

variable {calls other : Calls} {frame : Frame}

mutual

/-- An expression comes to the same with calls that agree. -/
theorem eval_matches (closed : T.Closed) (relies : T.Relies depth calls other)
    (seated : ∀ o, frame.this? = some o → T.cls o.cls) :
    (e : Code.Expr) → T.Matches depth (eval calls frame e) (eval other frame e) T.Over
  | .const c => by
    rw [eval, eval]
    exact .pure (Value.over_of_plain (Value.plain_ofConstant c))
  | .var slot => by
    rw [eval, eval]
    exact readVar_matches frame slot
  | .this => by
    rw [eval, eval]
    refine (this_matches seated).bind fun o ho => .pure ?_
    exact Value.over_object.2 ho
  | .field slot => by
    rw [eval, eval]
    refine (this_matches seated).bind fun o _ => ?_
    exact .lift (readField_agrees closed o slot)
  | .static slot => by
    rw [eval, eval]
    exact .lift (readStatic_agrees closed frame.cls slot)
  | .storeVar slot e => by
    rw [eval, eval]
    refine (eval_matches closed relies seated e).bind fun v hv => ?_
    exact (writeVar_matches frame slot hv).bind fun _ _ => .pure hv
  | .storeField slot e => by
    rw [eval, eval]
    refine (eval_matches closed relies seated e).bind fun v hv => ?_
    refine (this_matches seated).bind fun o _ => ?_
    exact (Body.Agree.lift (writeField_agrees closed o slot hv)).bind fun _ _ => .pure hv
  | .storeStatic slot e => by
    rw [eval, eval]
    refine (eval_matches closed relies seated e).bind fun v hv => ?_
    exact (Body.Agree.lift (writeStatic_agrees closed frame.cls slot hv)).bind fun _ _ =>
      .pure hv
  | .unary op e => by
    rw [eval, eval]
    refine (eval_matches closed relies seated e).bind fun v _ => ?_
    exact .lift (unary_agrees op v)
  | .binary op l r => by
    rw [eval, eval]
    refine (eval_matches closed relies seated l).bind fun a ha => ?_
    refine (eval_matches closed relies seated r).bind fun b hb => ?_
    exact .lift (binary_agrees relies.invoke op ha hb)
  | .and l r => by
    rw [eval, eval]
    refine (eval_matches closed relies seated l).bind fun a _ => ?_
    refine branch_matches ?_ (.pure (Value.over_of_plain trivial))
    refine (eval_matches closed relies seated r).bind fun b _ => ?_
    exact (truth_matches b).bind fun _ _ => .pure (Value.over_of_plain trivial)
  | .or l r => by
    rw [eval, eval]
    refine (eval_matches closed relies seated l).bind fun a _ => ?_
    refine branch_matches (.pure (Value.over_of_plain trivial)) ?_
    refine (eval_matches closed relies seated r).bind fun b _ => ?_
    exact (truth_matches b).bind fun _ _ => .pure (Value.over_of_plain trivial)
  | .conditional c t e => by
    rw [eval, eval]
    refine (eval_matches closed relies seated c).bind fun v _ => ?_
    exact branch_matches (eval_matches closed relies seated t)
      (eval_matches closed relies seated e)
  | .cast target mode e => by
    rw [eval, eval]
    refine (eval_matches closed relies seated e).bind fun v hv => ?_
    exact .lift (castTo_agrees target mode hv)
  | .invoke receiver method args => by
    rw [eval, eval]
    refine (eval_matches closed relies seated receiver).bind fun v hv => ?_
    refine (evalAll_matches closed relies seated args).bind fun vs hvs => ?_
    exact .lift (relies.invoke v method vs hv hvs)
  | .invokeSuper method args => by
    rw [eval, eval]
    refine (evalAll_matches closed relies seated args).bind fun vs hvs => ?_
    refine (this_matches seated).bind fun o ho => ?_
    exact .lift (invokeInherited_agrees relies.hosts ho method hvs)

theorem evalAll_matches (closed : T.Closed) (relies : T.Relies depth calls other)
    (seated : ∀ o, frame.this? = some o → T.cls o.cls) : (es : List Code.Expr) →
    T.Matches depth (evalAll calls frame es) (evalAll other frame es) T.AllOver
  | [] => by
    rw [evalAll, evalAll]
    exact .pure Value.allOver_nil
  | e :: es => by
    rw [evalAll, evalAll]
    refine (eval_matches closed relies seated e).bind fun v hv => ?_
    refine (evalAll_matches closed relies seated es).bind fun vs hvs => .pure ?_
    exact List.forall_mem_cons.2 ⟨hv, hvs⟩

end

theorem evalCondition_matches (closed : T.Closed) (relies : T.Relies depth calls other)
    (seated : ∀ o, frame.this? = some o → T.cls o.cls) (e : Code.Expr) :
    T.Matches depth (evalCondition calls frame e) (evalCondition other frame e) fun _ => True :=
  (eval_matches closed relies seated e).bind fun v _ => truth_matches v

/-- What a statement that returns gives back is over the classes. -/
def Flows (T : Setting) : Flow → Prop
  | .normal => True
  | .returned v => T.Over v

mutual

/-- A statement does the same with calls that agree, if rounds are counted alike wherever it has a
loop. -/
theorem exec_matches (closed : T.Closed) (relies : T.Relies depth calls other)
    (seated : ∀ o, frame.this? = some o → T.cls o.cls) : (s : Code.Stmt) →
    (loops : T.spent ∨ s.loopFree = true) →
    T.Matches depth (exec calls frame s) (exec other frame s) T.Flows
  | .expr e, _ => by
    rw [exec, exec]
    exact (eval_matches closed relies seated e).bind fun _ _ => .pure trivial
  | .ret none, _ => by
    rw [exec, exec]
    exact .pure (Value.over_of_plain trivial)
  | .ret (some e), _ => by
    rw [exec, exec]
    exact (eval_matches closed relies seated e).bind fun _ hv => .pure hv
  | .cond c t e, loops => by
    rw [exec, exec]
    rw [Code.Stmt.loopFree, Bool.and_eq_true] at loops
    refine (evalCondition_matches closed relies seated c).bind fun go _ => ?_
    cases go with
    | true => exact execAll_matches closed relies seated t (loops.imp_right And.left)
    | false => exact execAll_matches closed relies seated e (loops.imp_right And.right)
  | .loop c body, loops => by
    rcases loops with spent | free
    · rw [exec, exec, relies.rounds spent]
      exact .loop (fun _ => spent) (evalCondition_matches closed relies seated c)
        (execAll_matches closed relies seated body (.inl spent)) trivial _
    · cases free
  | .throw e, _ => by
    rw [exec, exec]
    refine (eval_matches closed relies seated e).bind fun v _ => ?_
    exact .refl (Body.Ensures.fail (stops_failed _))
  | .block body, loops => by
    rw [exec, exec]
    exact execAll_matches closed relies seated body loops

theorem execAll_matches (closed : T.Closed) (relies : T.Relies depth calls other)
    (seated : ∀ o, frame.this? = some o → T.cls o.cls) : (ss : List Code.Stmt) →
    (loops : T.spent ∨ Code.Stmt.allLoopFree ss = true) →
    T.Matches depth (execAll calls frame ss) (execAll other frame ss) T.Flows
  | [], _ => by
    rw [execAll, execAll]
    exact .pure trivial
  | s :: ss, loops => by
    rw [execAll, execAll]
    rw [Code.Stmt.allLoopFree, Bool.and_eq_true] at loops
    refine (exec_matches closed relies seated s (loops.imp_right And.left)).bind fun flow hf => ?_
    cases flow with
    | normal => exact execAll_matches closed relies seated ss (loops.imp_right And.right)
    | returned v => exact .pure hf

end

theorem runBody_agrees (closed : T.Closed) (relies : T.Relies depth calls other)
    (seated : ∀ o, frame.this? = some o → T.cls o.cls) (locals : Nat) {args : List Value}
    (held : T.AllOver args) {body : List Code.Stmt}
    (loops : T.spent ∨ Code.Stmt.allLoopFree body = true) :
    T.Agrees depth (runBody calls frame locals args body) (runBody other frame locals args body)
      T.Flows := by
  have ran := execAll_matches closed relies seated body loops _
    (Value.AllOver.frame held (locals - args.length))
  exact .map (ran.mono fun r hr => hr.2)

theorem evalInitializer_agrees (closed : T.Closed) (relies : T.Relies depth calls other)
    (seated : ∀ o, frame.this? = some o → T.cls o.cls) (type : TypeRef) (init : Code.Expr) :
    T.Agrees depth (evalInitializer calls frame type init) (evalInitializer other frame type init)
      T.Over := by
  have evaluated := eval_matches closed relies seated init [] Value.allOver_nil
  refine .bind (.map (evaluated.mono fun r hr => hr.2)) fun v hv => coerce_agrees type hv

/-! ### Initial values -/

theorem initFields_agrees (closed : T.Closed) (relies : T.Relies depth calls other) {o : Object}
    (ho : T.cls o.cls) (slot : Nat) (fields : List Code.Field) :
    T.Agrees depth (initFields calls o slot fields) (initFields other o slot fields)
      fun _ => True := by
  induction fields generalizing slot with
  | nil => exact .pure trivial
  | cons f fields ih =>
    rw [initFields, initFields]
    cases f.init with
    | none => exact ih (slot + 1)
    | some init =>
      have evaluated := evalInitializer_agrees closed relies (seated_object ho) f.type init
      refine evaluated.bind fun v hv => ?_
      exact (writeField_agrees closed o slot hv).bind fun _ _ => ih (slot + 1)

theorem initStatics_agrees (closed : T.Closed) (relies : T.Relies depth calls other)
    (c : LoadedClass) (slot : Nat) (fields : List Code.Field) :
    T.Agrees depth (initStatics calls c slot fields) (initStatics other c slot fields)
      fun _ => True := by
  have seated : ∀ p, (⟨none, c⟩ : Frame).this? = some p → T.cls p.cls := nofun
  induction fields generalizing slot with
  | nil => exact .pure trivial
  | cons f fields ih =>
    rw [initStatics, initStatics]
    cases f.init with
    | none => exact ih (slot + 1)
    | some init =>
      have evaluated := evalInitializer_agrees closed relies seated f.type init
      refine (evaluated.mapFailure fun _ _ => stops_failed _).bind fun v hv => ?_
      exact (writeStatic_agrees closed c slot hv).bind fun _ _ => ih (slot + 1)

end

/-! ### Frames -/

theorem nested_agrees (closed : T.Closed) {limit : Nat} {α : Type} {P : α → Prop}
    {run other : Run α} (h : depth < limit → T.Agrees (depth + 1) run other P) :
    T.Agrees depth (Run.nested limit run) (Run.nested limit other) P := by
  by_cases room : depth < limit
  · have entered : ∀ (body : Run α) s, s.depth = depth → Run.nested limit body s
        = ((body { s with depth := s.depth + 1 }).1,
          { (body { s with depth := s.depth + 1 }).2 with
            depth := (body { s with depth := s.depth + 1 }).2.depth - 1 }) := by
      intro body s hs
      exact if_neg (by omega)
    have deeper : ∀ s, T.At depth s → T.At (depth + 1) { s with depth := s.depth + 1 } :=
      fun s hs => ⟨congrArg (· + 1) hs.1, closed.depth hs.2 _⟩
    constructor
    · intro s hs
      obtain ⟨kept, ended⟩ := (h room).ensures _ (deeper s hs)
      rw [entered run s hs.1]
      exact ⟨⟨by simp [kept.1], closed.depth kept.2 _⟩, ended⟩
    · intro s hs
      rw [entered run s hs.1, entered other s hs.1, (h room).same _ (deeper s hs)]
  · have refused : ∀ (body : Run α) s, T.At depth s →
        Run.nested limit body s = Run.fail (.stackOverflow limit) s := fun body s hs =>
      if_pos (by have := hs.1; omega)
    constructor
    · intro s hs
      rw [refused run s hs]
      exact Run.Ensures.fail (P := P) (stops_failed _) s hs
    · intro s hs
      rw [refused run s hs, refused other s hs]

theorem runFrame_agrees (closed : T.Closed) {calls other : Calls}
    (relies : T.Relies depth calls other) {o : Object} (ho : T.cls o.cls) {m : Code.Method}
    (loops : T.spent ∨ Code.Stmt.allLoopFree m.body = true) {args : List Value}
    (held : T.AllOver args) :
    T.Agrees depth (runFrame calls o m args) (runFrame other o m args) T.Over := by
  have ran := runBody_agrees closed relies (seated_object ho) m.locals held loops
  refine ran.bind fun flow hf => ?_
  cases flow with
  | normal => exact .pure (Value.over_of_plain trivial)
  | returned v =>
    dsimp only
    split
    · exact .pure (Value.over_of_plain trivial)
    · exact coerce_agrees m.returnType hf

theorem callMethod_agrees (closed : T.Closed) {calls other : Calls} {o : Object}
    (ho : T.cls o.cls)
    (deeper : depth < o.cls.maxCallDepth → T.Relies (depth + 1) calls other) {m : Code.Method}
    (loops : T.spent ∨ Code.Stmt.allLoopFree m.body = true) {args : List Value}
    (held : T.AllOver args) :
    T.Agrees depth (callMethod calls o m args) (callMethod other o m args) T.Over := by
  rw [callMethod_eq_nested, callMethod_eq_nested]
  exact nested_agrees closed fun room => runFrame_agrees closed (deeper room) ho loops held

theorem invokeThrough_agrees (closed : T.Closed) {calls other : Calls}
    (hosts : T.Hosts depth calls other)
    {enter enter' : Object → Code.Method → List Value → Run Value}
    (entered : ∀ o, T.cls o.cls → ∀ m ∈ o.cls.code.methods, ∀ args, T.AllOver args →
      T.Agrees depth (enter o m args) (enter' o m args) T.Over) :
    T.Invokes depth (invokeThrough enter calls) (invokeThrough enter' other) := by
  intro receiver name args hr hargs
  unfold invokeThrough
  cases receiver with
  | null => exact fail_agrees _
  | object o =>
    have ho := Value.over_object.1 hr
    refine .get fun s _ => .bind (P := fun found =>
      o.cls.findMethod s.tables name args = .ok found) (ofExcept_agrees fun _ same => same) ?_
    intro found chosen
    cases found with
    | none => exact invokeInherited_agrees hosts ho name hargs
    | some found =>
      obtain ⟨m, taken⟩ := found
      obtain ⟨hm, _, _, made⟩ := LoadedClass.findMethod_some chosen
      exact entered o ho m hm taken (hargs.coerceAll made)
  | handler id =>
    dsimp only
    split
    · rename_i interface m rest
      exact invokeHandler_agrees closed hosts _ _ _ fun v member =>
        hargs v (List.mem_cons_of_mem _ (List.mem_cons_of_mem _ member))
    · exact fail_agrees _
    · exact builtin_agrees _ _ _
  | _ => exact builtin_agrees _ _ _

/-- Values are invoked alike with calls that agree in the frames that there is room for. -/
theorem invokeValue_agrees (closed : T.Closed) {calls other : Calls}
    (hosts : T.Hosts depth calls other)
    (deeper : ∀ c, T.cls c → depth < c.maxCallDepth → T.Relies (depth + 1) calls other) :
    T.Invokes depth (invokeValue calls) (invokeValue other) := by
  rw [invokeValue_through, invokeValue_through]
  refine invokeThrough_agrees closed hosts fun o ho m hm args held => ?_
  have loops := (closed.loops ho).imp_right fun free => Code.Class.loopFree_method free hm
  exact callMethod_agrees closed ho (deeper _ ho) loops held

/-! ### Linking and instantiation -/

theorem set_agrees {s : Store} (hs : T.At depth s) :
    T.Agrees depth (set s : Run Unit) (set s) fun _ => True := .refl fun _ _ => ⟨hs, trivial⟩

theorem linkWith_agrees (closed : T.Closed) {calls other : Calls}
    (relies : T.Relies depth calls other) (code : Code.Class) (registry limit : Nat) :
    T.Agrees depth (linkWith calls code registry limit) (linkWith other code registry limit)
      fun c => c.code = code ∧ c.maxCallDepth = limit := by
  refine .get fun s hs => ?_
  cases (code.superclass :: code.interfaces).find? fun t => !(s.tables registry).resolves t with
  | some supertype => exact fail_agrees _
  | none =>
    refine .bind (set_agrees ⟨hs.1, ?_⟩) fun _ _ => ?_
    · exact closed.pushStatics hs.2 (Value.allOver_defaults code.statics)
    · exact (initStatics_agrees closed relies _ 0 _).bind fun _ _ => .pure ⟨rfl, rfl⟩

theorem allocate_agrees (closed : T.Closed) (c : LoadedClass) :
    T.Agrees depth (allocate c) (allocate c) fun o => o.cls = c := by
  refine .get fun s hs => ?_
  refine .bind (set_agrees ⟨hs.1, ?_⟩) fun _ _ => .pure rfl
  exact closed.pushObject hs.2 (Value.allOver_defaults c.code.fields)

theorem constructThrough_agrees (closed : T.Closed) {calls other : Calls}
    (relies : T.Relies depth calls other) {enter enter' : Object → Code.Constructor → Run Flow}
    {c : LoadedClass} (hc : T.cls c)
    (entered : ∀ o, o.cls = c → ∀ k ∈ c.code.constructors,
      T.Agrees depth (enter o k) (enter' o k) T.Flows) :
    T.Agrees depth (constructThrough enter calls c) (constructThrough enter' other c)
      fun o => o.cls = c := by
  unfold constructThrough
  cases found : c.code.constructors.find? (·.params.isEmpty) with
  | none => exact fail_agrees _
  | some k =>
    dsimp only
    split
    · exact fail_agrees _
    · refine (allocate_agrees closed c).bind fun o ho => ?_
      have inited := initFields_agrees closed relies (o := o) (ho ▸ hc) 0 c.code.fields
      refine inited.bind fun _ _ => ?_
      exact (entered o ho k (List.mem_of_find?_eq_some found)).bind fun _ _ => .pure ho

theorem constructor_agrees (closed : T.Closed) {calls other : Calls}
    (relies : T.Relies depth calls other) {o : Object} (ho : T.cls o.cls) {k : Code.Constructor}
    (loops : T.spent ∨ Code.Stmt.allLoopFree k.body = true) :
    T.Agrees depth (runBody calls ⟨some o, o.cls⟩ k.locals [] k.body)
      (runBody other ⟨some o, o.cls⟩ k.locals [] k.body) T.Flows := by
  exact runBody_agrees closed relies (seated_object ho) k.locals Value.allOver_nil loops

theorem callConstructor_agrees (closed : T.Closed) {calls other : Calls} {o : Object}
    (ho : T.cls o.cls)
    (deeper : depth < o.cls.maxCallDepth → T.Relies (depth + 1) calls other)
    {k : Code.Constructor} (loops : T.spent ∨ Code.Stmt.allLoopFree k.body = true) :
    T.Agrees depth (callConstructor calls o.cls o k) (callConstructor other o.cls o k) T.Flows :=
  nested_agrees closed fun room => constructor_agrees closed (deeper room) ho loops

theorem construct_agrees (closed : T.Closed) {calls other : Calls}
    (relies : T.Relies depth calls other) {c : LoadedClass} (hc : T.cls c)
    (deeper : depth < c.maxCallDepth → T.Relies (depth + 1) calls other) :
    T.Agrees depth (construct calls c) (construct other c) fun o => o.cls = c := by
  rw [construct_through, construct_through]
  refine constructThrough_agrees closed relies hc fun o ho k hk => ?_
  subst ho
  have loops := (closed.loops hc).imp_right fun free => Code.Class.loopFree_constructor free hk
  exact callConstructor_agrees closed hc deeper loops

end Setting

end Classwright

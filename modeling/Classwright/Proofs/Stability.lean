import Classwright.Machine.Access
import Classwright.Machine.Invoke
import Classwright.Proofs.Ensuring

/-!
# What no run changes

An invariant of the store is stable if it survives every single change that running code makes: new
values in fields, one more object or class, one more call of a handler. Then it survives every run.
Registries and handlers are left alone by all of them.
-/

namespace Classwright

/-- The invariant survives what running code does to a store. -/
structure Store.Stable (I : Store → Prop) : Prop where
  setFields : ∀ s o values, I s → I (s.setFields o values)
  setStatics : ∀ s c values, I s → I (s.setStatics c values)
  pushObject : ∀ s stored, I s → I { s with objects := s.objects.push stored }
  pushStatics : ∀ s values, I s → I { s with statics := s.statics.push values }
  called : ∀ s call, I s → I { s with calls := call :: s.calls }
  cells : ∀ s cells, I s → I { s with cells := cells }
  depth : ∀ s n, I s → I { s with depth := n }

/-- The run leaves the invariant as it is. -/
abbrev Run.Leaves {α : Type} (I : Store → Prop) (body : Run α) : Prop :=
  Run.Ensures I (fun _ => True) body fun _ => True

/-- The part of a body leaves the invariant as it is. -/
abbrev Body.Leaves {α : Type} (I : Store → Prop) (body : Body α) : Prop :=
  Body.Ensures I (fun _ => True) (fun _ => True) body fun _ => True

variable {I : Store → Prop}

/-- Calls leave the invariant as it is. -/
def Invoke.Leaves (I : Store → Prop) (call : Invoke) : Prop :=
  ∀ receiver name args, Run.Leaves I (call receiver name args)

/-- All that code relies on leaves the invariant as it is. -/
structure Calls.Leaves (I : Store → Prop) (calls : Calls) : Prop where
  invoke : Invoke.Leaves I calls.invoke
  instantiate : ∀ c, Run.Leaves I (calls.instantiate c)

/-- A check changes nothing and may fail. -/
theorem FieldHandle.check_ensures {S : Stop → Prop} (h : FieldHandle) (o : Object) (writing : Bool)
    (failed : ∀ f, S (.failed f)) : Run.Ensures I S (h.check o writing) fun _ => True := by
  unfold check
  split
  · exact .fail (failed _)
  · split
    · exact .pure trivial
    · exact .fail (failed _)

namespace Run.Leaves

variable {α β : Type}

theorem pure (a : α) : Run.Leaves I (pure a) := Run.Ensures.pure trivial

theorem fail (f : Failure) : Run.Leaves I (Run.fail f : Run α) :=
  Run.Ensures.fail trivial

theorem ofExcept (result : Except Failure α) : Run.Leaves I (Run.ofExcept result) :=
  Run.Ensures.ofExcept (fun _ _ => trivial) fun _ _ => trivial

theorem andThen {body : Run α} {next : α → Run β} (h : Run.Leaves I body)
    (hnext : ∀ a, Run.Leaves I (next a)) : Run.Leaves I (body >>= next) :=
  Run.Ensures.bind h fun a _ => hnext a

theorem look {next : Store → Run β} (h : ∀ s, Run.Leaves I (next s)) :
    Run.Leaves I (get >>= next) := Run.Ensures.get fun s _ => h s

theorem set {s : Store} (h : I s) : Run.Leaves I (set s : Run Unit) := fun _ _ => ⟨h, trivial⟩

theorem tables {next : Tables → Run β} (h : ∀ tables, Run.Leaves I (next tables)) :
    Run.Leaves I (Run.tables >>= next) := look fun s => h s.tables

theorem readField (o : Object) (slot : Nat) : Run.Leaves I (Run.readField o slot) := by
  refine .look fun s => ?_
  cases (s.fields o)[slot]? with
  | none => exact .fail _
  | some v => exact .pure v

theorem check (h : FieldHandle) (o : Object) (writing : Bool) :
    Run.Leaves I (h.check o writing) := h.check_ensures o writing fun _ => trivial

variable (keeps : ∀ s o values, I s → I (s.setFields o values))

include keeps

theorem writeField (o : Object) (slot : Nat) (v : Value) :
    Run.Leaves I (Run.writeField o slot v) := by
  refine .look fun s => ?_
  dsimp only
  split
  · exact .modify fun t ht => keeps t o _ ht
  · exact .fail _

theorem setField (h : FieldHandle) (o : Object) (v : Value) : Run.Leaves I (h.set o v) := by
  refine .andThen (check h o true) fun _ => .tables fun tables => ?_
  cases v.coerceTo tables h.info.type with
  | none => exact .fail _
  | some w => exact writeField keeps o h.slot w

end Run.Leaves

/-- A request that reads or writes a field. -/
def HostRequest.UsesField : HostRequest → Prop
  | getField .. | setField .. => True
  | _ => False

/-- Reading and writing fields leaves alone what does not depend on the fields. -/
theorem HostRequest.UsesField.leaves {request : HostRequest} (uses : request.UsesField)
    (keeps : ∀ s o values, I s → I (s.setFields o values)) (calls : Calls) :
    Run.Leaves I (request.run calls) := by
  cases request with
  | invoke o method args => exact uses.elim
  | instantiate c => exact uses.elim
  | getField c field accessible o =>
    exact .andThen (.ofExcept _) fun h => .andThen (.check _ o false) fun _ => .readField o _
  | setField c field accessible o v =>
    exact .andThen (.ofExcept _) fun h => .andThen (.setField keeps _ o v) fun _ => .pure _

namespace Store.Stable

variable (stable : Store.Stable I)

include stable

theorem nested (limit : Nat) {α : Type} {body : Run α} (h : Run.Leaves I body) :
    Run.Leaves I (Run.nested limit body) := Run.Ensures.nested h stable.depth trivial

/-! ### Fields -/

theorem writeStatic (c : LoadedClass) (slot : Nat) (v : Value) :
    Run.Leaves I (Run.writeStatic c slot v) := by
  refine .look fun s => ?_
  dsimp only
  split
  · exact .modify fun t ht => stable.setStatics t c _ ht
  · exact .fail _

omit stable in
theorem readStatic (c : LoadedClass) (slot : Nat) : Run.Leaves I (Run.readStatic c slot) := by
  refine .look fun s => ?_
  cases (s.staticsOf c)[slot]? with
  | none => exact .fail _
  | some v => exact .pure v

/-! ### Host code -/

variable {calls : Calls} (leaves : calls.Leaves I)

include leaves

theorem request (request : HostRequest) : Run.Leaves I (request.run calls) := by
  cases request with
  | invoke o method args => exact leaves.invoke (.object o) method args
  | instantiate c => exact .andThen (leaves.instantiate c) fun o => .pure _
  | getField c field accessible o =>
    have uses : HostRequest.UsesField (.getField c field accessible o) := trivial
    exact uses.leaves stable.setFields calls
  | setField c field accessible o v =>
    have uses : HostRequest.UsesField (.setField c field accessible o v) := trivial
    exact uses.leaves stable.setFields calls

theorem foreign (code : Foreign) : Run.Leaves I (code.run calls) := by
  induction code with
  | answer v => exact .pure v
  | fail f => exact .fail f
  | ask request next ih =>
    exact .andThen ((Run.Ensures.outcome (stable.request leaves request) trivial).mono
      fun _ _ => trivial) ih
  | update cell change next ih =>
    intro s hs
    exact ih _ _ (stable.cells s _ hs)

theorem invokeHandler (id : Nat) (interface : Descriptor) (m : Method) (args : List Value) :
    Run.Leaves I (invokeHandler calls id interface m args) := by
  refine .andThen (.modify fun s hs => stable.called s _ hs) fun _ => .look fun s => ?_
  cases s.handlers[id]? with
  | none => exact .pure _
  | some code => exact stable.foreign leaves _

theorem invokeInherited (o : Object) (name : String) (args : List Value) :
    Run.Leaves I (invokeInherited calls o name args) := by
  refine .look fun s => ?_
  cases s.inheritedNative? o.cls name args.length with
  | some native => exact .andThen (.ofExcept _) fun taken => stable.foreign leaves _
  | none =>
    dsimp only
    cases Builtin.ofObject o name args with
    | none => exact .fail _
    | some v => exact .pure v

omit leaves

omit stable in
theorem textOf {call : Invoke} (leaves : Invoke.Leaves I call) (v : Value) :
    Run.Leaves I (textOf call v) := by
  cases v with
  | object o =>
    refine .andThen (leaves (.object o) "toString" []) fun w => ?_
    cases w <;> exact .pure _
  | _ => exact .pure _

/-! ### Bodies -/

omit stable in
theorem binary {call : Invoke} (leaves : Invoke.Leaves I call) (op : BinaryOp) (a b : Value) :
    Run.Leaves I (binary call op a b) := by
  unfold Classwright.binary
  split
  · exact .andThen (textOf leaves a) fun left => .andThen (textOf leaves b) fun right => .pure _
  · exact .ofExcept _

omit stable in
theorem castTo (target : TypeRef) (mode : Code.CastMode) (v : Value) :
    Run.Leaves I (castTo target mode v) := by
  unfold Classwright.castTo
  cases target with
  | primitive kind =>
    cases mode <;>
    · dsimp only
      split
      · exact .pure _
      · exact .fail _
  | _ =>
    cases mode <;>
    · refine .tables fun tables => ?_
      dsimp only
      split
      · exact .pure _
      · exact .fail _

end Store.Stable

namespace Body.Leaves

variable {frame : Frame}

theorem this : Body.Leaves I frame.this := by
  unfold Frame.this
  cases frame.this? with
  | none => exact .fail trivial
  | some o => exact .pure trivial

theorem failAt {α : Type} (f : Failure) (locals : List Value) :
    Run.Ensures I (fun _ => True) ((Body.fail f : Body α) locals) fun _ => True ∧ True :=
  Body.Ensures.fail (J := fun _ => True) (P := fun _ => True) trivial locals trivial

theorem readVar (slot : Nat) : Body.Leaves I (frame.readVar slot) := by
  intro locals _
  cases there : locals[slot]? with
  | none =>
    rw [frame.readVar_none there]
    exact failAt _ locals
  | some v =>
    rw [frame.readVar_some there]
    exact .pure ⟨trivial, trivial⟩

theorem writeVar (slot : Nat) (v : Value) : Body.Leaves I (frame.writeVar slot v) := by
  intro locals _
  change Run.Ensures I _ ((if slot < locals.length
    then (modify (·.set slot v) : Body Unit)
    else Body.fail (frame.missing .local_ slot)) locals) _
  split
  · exact .pure ⟨trivial, trivial⟩
  · exact failAt _ locals

theorem andThen {α β : Type} {body : Body α} {next : α → Body β} (h : Body.Leaves I body)
    (hnext : ∀ a, Body.Leaves I (next a)) : Body.Leaves I (body >>= next) :=
  Body.Ensures.bind h fun a _ => hnext a

theorem lift {α : Type} {run : Run α} (h : Run.Leaves I run) :
    Body.Leaves I (liftM run : Body α) := Body.Ensures.lift h

theorem truth (v : Value) : Body.Leaves I (truth v) := Body.Ensures.truth trivial

theorem branch {α : Type} {v : Value} {yes no : Body α} (hyes : Body.Leaves I yes)
    (hno : Body.Leaves I no) : Body.Leaves I (do if ← Classwright.truth v then yes else no) := by
  refine (truth v).andThen fun b => ?_
  cases b with
  | true => exact hyes
  | false => exact hno

end Body.Leaves

section

variable {calls : Calls} (frame : Frame)

mutual

/-- Evaluation leaves a stable invariant as it is. -/
theorem eval_leaves (stable : Store.Stable I) (leaves : calls.Leaves I) :
    (e : Code.Expr) → Body.Leaves I (eval calls frame e)
  | .const c => by
    rw [eval]
    exact .pure trivial
  | .var slot => by
    rw [eval]
    exact .readVar slot
  | .this => by
    rw [eval]
    exact Body.Leaves.this.andThen fun o => .pure trivial
  | .field slot => by
    rw [eval]
    exact Body.Leaves.this.andThen fun o => .lift (Run.Leaves.readField o slot)
  | .static slot => by
    rw [eval]
    exact .lift (Store.Stable.readStatic frame.cls slot)
  | .storeVar slot e => by
    rw [eval]
    refine (eval_leaves stable leaves e).andThen fun v => ?_
    exact (Body.Leaves.writeVar slot v).andThen fun _ => .pure trivial
  | .storeField slot e => by
    rw [eval]
    refine (eval_leaves stable leaves e).andThen fun v => ?_
    refine Body.Leaves.this.andThen fun o => ?_
    exact (Body.Leaves.lift (.writeField stable.setFields o slot v)).andThen fun _ => .pure trivial
  | .storeStatic slot e => by
    rw [eval]
    refine (eval_leaves stable leaves e).andThen fun v => ?_
    have written := Body.Leaves.lift (stable.writeStatic frame.cls slot v)
    exact written.andThen fun _ => .pure trivial
  | .unary op e => by
    rw [eval]
    exact (eval_leaves stable leaves e).andThen fun v => .lift (Run.Leaves.ofExcept _)
  | .binary op l r => by
    rw [eval]
    refine (eval_leaves stable leaves l).andThen fun a => ?_
    refine (eval_leaves stable leaves r).andThen fun b => ?_
    exact .lift (Store.Stable.binary leaves.invoke op a b)
  | .and l r => by
    rw [eval]
    refine (eval_leaves stable leaves l).andThen fun a => Body.Leaves.branch ?_ (.pure trivial)
    refine (eval_leaves stable leaves r).andThen fun b => ?_
    exact (Body.Leaves.truth b).andThen fun _ => .pure trivial
  | .or l r => by
    rw [eval]
    refine (eval_leaves stable leaves l).andThen fun a => Body.Leaves.branch (.pure trivial) ?_
    refine (eval_leaves stable leaves r).andThen fun b => ?_
    exact (Body.Leaves.truth b).andThen fun _ => .pure trivial
  | .conditional c t e => by
    rw [eval]
    refine (eval_leaves stable leaves c).andThen fun v => ?_
    exact Body.Leaves.branch (eval_leaves stable leaves t) (eval_leaves stable leaves e)
  | .cast target mode e => by
    rw [eval]
    exact (eval_leaves stable leaves e).andThen fun v => .lift (Store.Stable.castTo target mode v)
  | .invoke receiver method args => by
    rw [eval]
    refine (eval_leaves stable leaves receiver).andThen fun v => ?_
    refine (evalAll_leaves stable leaves args).andThen fun vs => ?_
    exact .lift (leaves.invoke v method vs)
  | .invokeSuper method args => by
    rw [eval]
    refine (evalAll_leaves stable leaves args).andThen fun vs => ?_
    refine Body.Leaves.this.andThen fun o => ?_
    exact .lift (stable.invokeInherited leaves o method vs)

theorem evalAll_leaves (stable : Store.Stable I) (leaves : calls.Leaves I) :
    (es : List Code.Expr) → Body.Leaves I (evalAll calls frame es)
  | [] => by
    rw [evalAll]
    exact .pure trivial
  | e :: es => by
    rw [evalAll]
    refine (eval_leaves stable leaves e).andThen fun v => ?_
    exact (evalAll_leaves stable leaves es).andThen fun vs => .pure trivial

end

theorem evalCondition_leaves (stable : Store.Stable I) (leaves : calls.Leaves I)
    (e : Code.Expr) : Body.Leaves I (evalCondition calls frame e) :=
  (eval_leaves frame stable leaves e).andThen fun v => .truth v

mutual

/-- Statements leave a stable invariant as it is. -/
theorem exec_leaves (stable : Store.Stable I) (leaves : calls.Leaves I) :
    (s : Code.Stmt) → Body.Leaves I (exec calls frame s)
  | .expr e => by
    rw [exec]
    exact (eval_leaves frame stable leaves e).andThen fun _ => .pure trivial
  | .ret none => by
    rw [exec]
    exact .pure trivial
  | .ret (some e) => by
    rw [exec]
    exact (eval_leaves frame stable leaves e).andThen fun _ => .pure trivial
  | .cond c t e => by
    rw [exec]
    refine (evalCondition_leaves frame stable leaves c).andThen fun go => ?_
    cases go with
    | true => exact execAll_leaves stable leaves t
    | false => exact execAll_leaves stable leaves e
  | .loop c body => by
    rw [exec]
    have condition := evalCondition_leaves frame stable leaves c
    exact .loop trivial condition (execAll_leaves stable leaves body) trivial _
  | .throw e => by
    rw [exec]
    exact (eval_leaves frame stable leaves e).andThen fun v => .fail trivial
  | .block body => by
    rw [exec]
    exact execAll_leaves stable leaves body

theorem execAll_leaves (stable : Store.Stable I) (leaves : calls.Leaves I) :
    (ss : List Code.Stmt) → Body.Leaves I (execAll calls frame ss)
  | [] => by
    rw [execAll]
    exact .pure trivial
  | s :: ss => by
    rw [execAll]
    refine (exec_leaves stable leaves s).andThen fun flow => ?_
    cases flow with
    | normal => exact execAll_leaves stable leaves ss
    | returned v => exact .pure trivial

end

theorem runBody_leaves (stable : Store.Stable I) (leaves : calls.Leaves I)
    (locals : Nat) (args : List Value) (body : List Code.Stmt) :
    Run.Leaves I (runBody calls frame locals args body) := by
  have ran := execAll_leaves frame stable leaves body
    (args ++ List.replicate (locals - args.length) .null) trivial
  exact Run.Ensures.map (ran.mono fun _ _ => trivial)

theorem evalInitializer_leaves (stable : Store.Stable I) (leaves : calls.Leaves I)
    (type : TypeRef) (init : Code.Expr) :
    Run.Leaves I (evalInitializer calls frame type init) := by
  have evaluated := eval_leaves frame stable leaves init [] trivial
  refine .andThen (Run.Ensures.map (evaluated.mono fun _ _ => trivial)) fun v => ?_
  refine .tables fun tables => ?_
  cases v.coerceTo tables type with
  | none => exact .fail _
  | some w => exact .pure w

/-! ### Calls, linking and instantiation -/

theorem invokeObject_leaves (stable : Store.Stable I) (leaves : calls.Leaves I)
    (o : Object) (name : String) (args : List Value) :
    Run.Leaves I (invokeObject calls o name args) := by
  refine .tables fun tables => .andThen (.ofExcept _) fun found => ?_
  cases found with
  | none => exact stable.invokeInherited leaves o name args
  | some found =>
    obtain ⟨m, taken⟩ := found
    refine stable.nested _ (.andThen (runBody_leaves _ stable leaves _ _ _) fun flow => ?_)
    cases flow with
    | normal => exact .pure _
    | returned v =>
      dsimp only
      split
      · exact .pure _
      · refine .tables fun tables => ?_
        cases v.coerceTo tables m.returnType with
        | none => exact .fail _
        | some w => exact .pure w

theorem invokeValue_leaves (stable : Store.Stable I) (leaves : calls.Leaves I) :
    Invoke.Leaves I (invokeValue calls) := by
  intro receiver name args
  unfold invokeValue
  cases receiver with
  | null => exact .fail _
  | object o => exact invokeObject_leaves stable leaves o name args
  | handler id =>
    dsimp only
    split
    · exact stable.invokeHandler leaves _ _ _ _
    · exact .fail _
    · split
      · exact .ofExcept _
      · exact .fail _
  | _ =>
    dsimp only
    split
    · exact .ofExcept _
    · exact .fail _

theorem initFields_leaves (stable : Store.Stable I) (leaves : calls.Leaves I)
    (o : Object) (slot : Nat) (fields : List Code.Field) :
    Run.Leaves I (initFields calls o slot fields) := by
  induction fields generalizing slot with
  | nil => exact .pure _
  | cons f fields ih =>
    rw [initFields]
    cases f.init with
    | none => exact ih (slot + 1)
    | some init =>
      have evaluated := evalInitializer_leaves ⟨some o, o.cls⟩ stable leaves f.type init
      refine .andThen evaluated fun v => ?_
      exact .andThen (.writeField stable.setFields o slot v) fun _ => ih (slot + 1)

theorem instantiateWith_leaves (stable : Store.Stable I) (leaves : calls.Leaves I)
    (c : LoadedClass) : Run.Leaves I (instantiateWith calls c) := by
  have allocated : Run.Leaves I (allocate c) := by
    refine Run.Ensures.get fun s hs => ?_
    exact Run.Leaves.andThen (Run.Leaves.set (stable.pushObject s _ hs)) fun _ => Run.Leaves.pure _
  have constructed : Run.Leaves I (construct calls c) := by
    unfold construct
    cases c.code.constructors.find? (·.params.isEmpty) with
    | none => exact Run.Leaves.fail _
    | some k =>
      dsimp only
      split
      · exact Run.Leaves.fail _
      · refine .andThen allocated fun o => ?_
        refine Run.Leaves.andThen (initFields_leaves stable leaves o 0 _) fun _ => ?_
        have body := runBody_leaves ⟨some o, c⟩ stable leaves k.locals [] k.body
        refine Run.Leaves.andThen (stable.nested _ body) fun _ => ?_
        exact Run.Leaves.pure _
  exact Run.Ensures.mapFailure _ constructed fun _ _ => trivial

theorem within_leaves (stable : Store.Stable I) (rounds : Nat) :
    (Calls.within rounds).Leaves I := by
  induction rounds with
  | zero => exact ⟨fun _ _ _ => .exhausted trivial, fun _ => .exhausted trivial⟩
  | succ rounds ih => exact ⟨invokeValue_leaves stable ih, instantiateWith_leaves stable ih⟩

theorem initStatics_leaves (stable : Store.Stable I) (leaves : calls.Leaves I)
    (c : LoadedClass) (slot : Nat) (fields : List Code.Field) :
    Run.Leaves I (initStatics calls c slot fields) := by
  induction fields generalizing slot with
  | nil => exact .pure _
  | cons f fields ih =>
    rw [initStatics]
    cases f.init with
    | none => exact ih (slot + 1)
    | some init =>
      have evaluated := evalInitializer_leaves ⟨none, c⟩ stable leaves f.type init
      refine .andThen (Run.Ensures.mapFailure _ evaluated fun _ _ => trivial) fun v => ?_
      exact .andThen (stable.writeStatic c slot v) fun _ => ih (slot + 1)

end

theorem link_leaves (stable : Store.Stable I) (code : Code.Class) (registry depth : Nat) :
    Run.Leaves I (link code registry depth) := by
  refine Run.Ensures.get fun s hs => ?_
  cases (code.superclass :: code.interfaces).find? fun t => !(s.tables registry).resolves t with
  | some supertype => exact Run.Leaves.fail _
  | none =>
    have pushed := stable.pushStatics s
      (code.statics.map fun (f : Code.Field) => Value.default f.type) hs
    refine Run.Leaves.andThen (Run.Leaves.set pushed) fun _ => ?_
    have safe := within_leaves stable unlimited
    exact Run.Leaves.andThen (initStatics_leaves stable safe _ _ _) fun _ => Run.Leaves.pure _

theorem instantiate_leaves (stable : Store.Stable I) (c : LoadedClass) :
    Run.Leaves I c.instantiate := instantiateWith_leaves stable (within_leaves stable unlimited) c

/-- Runs leave registries and handlers alone. -/
theorem stable_hosts (registries : Array Registry) (handlers : Array HandlerCode) :
    Store.Stable fun s => s.registries = registries ∧ s.handlers = handlers :=
  ⟨fun _ _ _ h => h, fun _ _ _ h => h, fun _ _ h => h, fun _ _ h => h, fun _ _ h => h,
    fun _ _ h => h, fun _ _ h => h⟩

end Classwright

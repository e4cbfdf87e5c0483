import Classwright.Proofs.Hosting

/-!
# What permitted stores keep

An invariant of stores that does not depend on calls in progress is carried through a run as long as
each field that running code stores may be stored: `World.Permits` says so of an access in a frame.
If all methods of all objects keep to what is permitted for them, so does every call, whatever host
code does in between, and wherever the run is cut short.
-/

namespace Classwright

open Check
open Code (Stmt)

/-! ### Invariants and what they permit -/

/-- Invokes a method or reads a field, and neither makes an object nor sets a field. -/
def HostRequest.CallsOrReads : HostRequest → Prop
  | .invoke _ _ _ | .getField _ _ _ _ => True
  | .instantiate _ | .setField _ _ _ _ _ => False

namespace World

/-- The invariant says at least that all values and all host code speak of existing objects only,
and it looks at nothing but registries, handlers and fields. -/
structure Carries (W : World) (I : Store → Prop) : Prop where
  congr : ∀ {s s' : Store}, I s → s'.registries = s.registries → s'.handlers = s.handlers →
    s'.objects = s.objects → s'.statics = s.statics → I s'
  natives : ∀ {s : Store}, I s → ∀ id type method arity code,
    (s.registry id).native? type method arity = some code → ∀ o args, W.HasObject o →
      W.KnowsAll args → W.Honest HostRequest.CallsOrReads (fun _ => True) (code o args)
  handlers : ∀ {s : Store}, I s → ∀ code ∈ s.handlers,
    W.HonestHandler HostRequest.CallsOrReads code
  fields : ∀ {s : Store}, I s → ∀ o, W.HasObject o → W.KnowsAll (s.fields o)
  statics : ∀ {s : Store}, I s → ∀ c, W.classes c.id = some c → W.KnowsAll (s.staticsOf c)

/-- Any value may be stored in the slot of the object. -/
def MayStoreField (W : World) (I : Store → Prop) (o : Object) (slot : Nat) : Prop :=
  ∀ s v, I s → W.Knows v → I (s.setFields o ((s.fields o).set slot v))

/-- Any value may be stored in the static slot of the class. -/
def MayStoreStatic (W : World) (I : Store → Prop) (c : LoadedClass) (slot : Nat) : Prop :=
  ∀ s v, I s → W.Knows v → I (s.setStatics c ((s.staticsOf c).set slot v))

/-- Code in the frame may do so. -/
def Permits (W : World) (I : Store → Prop) (frame : Frame) : Access → Prop
  | .write .field slot => ∀ o, frame.this? = some o → W.MayStoreField I o slot
  | .write .static slot => W.MayStoreStatic I frame.cls slot
  | _ => True

/-- All methods of all objects keep to what is permitted for them. -/
structure Obeys (W : World) (I : Store → Prop) : Prop where
  instances : ∀ o, W.HasObject o → W.classes o.cls.id = some o.cls
  methods : ∀ o, W.HasObject o → ∀ m ∈ o.cls.code.methods, ∀ scope,
    ∀ a ∈ Stmt.allAccesses scope m.body, W.Permits I ⟨some o, o.cls⟩ a

end World

variable {W : World} {I : Store → Prop}

/-- The run carries the invariant, and what it ends with speaks of existing objects only. -/
abbrev Run.Carries {α : Type} (W : World) (I : Store → Prop) (body : Run α) (P : α → Prop) : Prop :=
  Run.Ensures I W.KnowsStop body P

/-- The part of a body carries the invariant, and its variables hold existing objects only. -/
abbrev Body.Carries {α : Type} (W : World) (I : Store → Prop) (body : Body α) (P : α → Prop) :
    Prop :=
  Body.Ensures I W.KnowsStop W.KnowsAll body P

def Invoke.Carries (W : World) (I : Store → Prop) (call : Invoke) : Prop :=
  ∀ receiver name args, W.Knows receiver → W.KnowsAll args →
    Run.Carries W I (call receiver name args) W.Knows

/-! ### Fields -/

namespace Run.Carries

theorem tables {β : Type} {next : Tables → Run β} {P : β → Prop}
    (h : ∀ tables, Run.Carries W I (next tables) P) : Run.Carries W I (Run.tables >>= next) P :=
  Run.Ensures.get fun s _ => h s.tables

theorem coerce (t : TypeRef) {v : Value} (known : W.Knows v) :
    Run.Carries W I (Run.coerce t v) W.Knows := by
  refine tables fun tables => ?_
  cases made : v.coerceTo tables t with
  | none => exact .fail trivial
  | some w => exact .pure (World.knows_of_coerceTo known made)

theorem readField (carries : W.Carries I) {o : Object} (ho : W.HasObject o) (slot : Nat) :
    Run.Carries W I (Run.readField o slot) W.Knows := by
  refine .get fun s hs => ?_
  cases read : (s.fields o)[slot]? with
  | none => exact .fail trivial
  | some v =>
    exact .pure (World.knowsAll_iff.1 (carries.fields hs o ho) v (List.mem_of_getElem? read))

theorem readStatic (carries : W.Carries I) {c : LoadedClass} (hc : W.classes c.id = some c)
    (slot : Nat) : Run.Carries W I (Run.readStatic c slot) W.Knows := by
  refine .get fun s hs => ?_
  cases read : (s.staticsOf c)[slot]? with
  | none => exact .fail trivial
  | some v =>
    exact .pure (World.knowsAll_iff.1 (carries.statics hs c hc) v (List.mem_of_getElem? read))

theorem writeField {o : Object} {slot : Nat} (may : W.MayStoreField I o slot) {v : Value}
    (known : W.Knows v) : Run.Carries W I (Run.writeField o slot v) fun _ => True := by
  intro s hs
  have step : Run.writeField o slot v s = if slot < (s.fields o).length
      then (.ok (), s.setFields o ((s.fields o).set slot v))
      else (.error (.failed (.illegalArgument (.missingSlot o.cls.code.name .field slot))), s) := by
    change (if slot < (s.fields o).length then _ else _ : Run Unit) s = _
    split <;> rfl
  rw [step]
  split
  · exact ⟨may s v hs known, trivial⟩
  · exact ⟨hs, trivial⟩

theorem writeStatic {c : LoadedClass} {slot : Nat} (may : W.MayStoreStatic I c slot) {v : Value}
    (known : W.Knows v) : Run.Carries W I (Run.writeStatic c slot v) fun _ => True := by
  intro s hs
  have step : Run.writeStatic c slot v s = if slot < (s.staticsOf c).length
      then (.ok (), s.setStatics c ((s.staticsOf c).set slot v))
      else (.error (.failed (.illegalArgument (.missingSlot c.code.name .static slot))), s) := by
    change (if slot < (s.staticsOf c).length then _ else _ : Run Unit) s = _
    split <;> rfl
  rw [step]
  split
  · exact ⟨may s v hs known, trivial⟩
  · exact ⟨hs, trivial⟩

theorem check (h : FieldHandle) (o : Object) (writing : Bool) :
    Run.Carries W I (h.check o writing) fun _ => True := by
  unfold FieldHandle.check
  split
  · exact .fail trivial
  · split
    · exact .pure trivial
    · exact .fail trivial

end Run.Carries

/-! ### Host code and builtin methods -/

section

variable {call : Invoke} {calls : Calls}

theorem HostRequest.run_carries (carries : W.Carries I) (called : Invoke.Carries W I calls.invoke)
    {request : HostRequest} (known : W.KnowsRequest request) (modest : request.CallsOrReads) :
    Run.Carries W I (request.run calls) W.Knows := by
  cases request with
  | invoke o method args => exact called (.object o) method args known.1 known.2
  | instantiate c => exact modest.elim
  | getField c field accessible o =>
    refine .bind (P := fun _ => True) (.ofExcept (fun _ _ => trivial) fun f refused => ?_)
      fun h _ => (Run.Carries.check _ o false).bind fun _ _ =>
        Run.Carries.readField carries known.2 _
    obtain ⟨_, _, rfl⟩ := LoadedClass.declaredField_error refused
    trivial
  | setField c field accessible o v => exact modest.elim

theorem Foreign.run_carries (carries : W.Carries I) (called : Invoke.Carries W I calls.invoke)
    {code : Foreign} (honest : W.Honest HostRequest.CallsOrReads (fun _ => True) code) :
    Run.Carries W I (code.run calls) W.Knows := by
  induction honest with
  | answer known _ => exact .pure known
  | fail known => exact .fail known
  | ask known modest _ ih =>
    refine (Run.Ensures.outcome (HostRequest.run_carries carries called known modest)
      trivial).bind fun r ended => ih r ?_
    cases r <;> exact ended
  | update _ ih =>
    intro s hs
    exact ih _ _ (carries.congr hs rfl rfl rfl rfl)

theorem invokeHandler_carries (carries : W.Carries I) (called : Invoke.Carries W I calls.invoke)
    (id : Nat) (interface : Descriptor) (m : Method) {args : List Value}
    (hargs : W.KnowsAll args) :
    Run.Carries W I (invokeHandler calls id interface m args) W.Knows := by
  refine .bind (.modify fun s hs => carries.congr hs rfl rfl rfl rfl) fun _ _ =>
    .get fun s hs => ?_
  cases found : s.handlers[id]? with
  | none => exact .pure trivial
  | some code =>
    have honest := carries.handlers hs code (Array.mem_of_getElem? found)
    exact Foreign.run_carries carries called (honest interface m args hargs)

theorem textOf_carries (called : Invoke.Carries W I call) {v : Value} (hv : W.Knows v) :
    Run.Carries W I (textOf call v) fun _ => True := by
  cases v with
  | object o =>
    refine .bind (called (.object o) "toString" [] hv trivial) fun w _ => ?_
    cases w <;> exact .pure trivial
  | _ => exact .pure trivial

theorem nativeArguments_carries {tables : Tables} {d : Descriptor} {name : String}
    {args : List Value} (known : W.KnowsAll args) :
    Run.Carries W I (Run.ofExcept (nativeArguments tables d name args)) W.KnowsAll := by
  refine .ofExcept (fun taken made => ?_) fun f made => ?_
  · unfold nativeArguments at made
    split at made
    · cases made
      exact known
    · split at made
      · rename_i found
        cases made
        obtain ⟨m, _, accepted⟩ := List.exists_of_findSome?_eq_some found
        exact knowsAll_of_coerceAll known accepted
      · cases made
  · unfold nativeArguments at made
    split at made
    · cases made
    · split at made
      · cases made
      · cases made
        trivial

theorem invokeInherited_carries (carries : W.Carries I) (called : Invoke.Carries W I calls.invoke)
    {o : Object} (ho : W.HasObject o) (name : String) {args : List Value}
    (hargs : W.KnowsAll args) : Run.Carries W I (invokeInherited calls o name args) W.Knows := by
  refine .get fun s hs => ?_
  cases found : s.inheritedNative? o.cls name args.length with
  | some native =>
    obtain ⟨host, code⟩ := native
    obtain ⟨host', _, here⟩ := List.exists_of_findSome?_eq_some found
    obtain ⟨code', native_, pair⟩ := Option.map_eq_some_iff.1 here
    cases pair
    refine .bind (nativeArguments_carries hargs) fun taken known => ?_
    have honest := carries.natives hs _ _ _ _ _ native_ o taken ho known
    exact Foreign.run_carries carries called honest
  | none =>
    dsimp only
    cases made : Builtin.ofObject o name args with
    | none =>
      refine .fail ?_
      split <;> trivial
    | some v => exact .pure (World.holds_of_ofObject (W := W) made).1

/-! ### Operators and casts -/

theorem binary_carries (called : Invoke.Carries W I call) (op : BinaryOp) {a b : Value}
    (ha : W.Knows a) (hb : W.Knows b) : Run.Carries W I (binary call op a b) W.Knows := by
  unfold binary
  split
  · refine .bind (textOf_carries called ha) fun left _ => ?_
    refine .bind (textOf_carries called hb) fun right _ => ?_
    exact .pure trivial
  · refine .ofExcept (fun w made => ?_) fun f failed => ?_
    · obtain ⟨p, result⟩ := Arithmetic.exists_primitive?_binary made
      exact World.knows_of_primitive? result
    · rcases Arithmetic.binary_error failed with rfl | rfl <;> trivial

theorem unary_carries (op : Code.UnaryOp) (v : Value) :
    Run.Carries W I (Run.ofExcept (Arithmetic.unary op v)) W.Knows := by
  refine .ofExcept (fun w made => ?_) fun f failed => ?_
  · obtain ⟨p, result⟩ := Arithmetic.exists_primitive?_unary made
    exact World.knows_of_primitive? result
  · obtain ⟨text, rfl⟩ := Arithmetic.unary_error failed
    trivial

theorem castTo_carries (target : TypeRef) (mode : Code.CastMode) {v : Value} (known : W.Knows v) :
    Run.Carries W I (castTo target mode v) W.Knows := by
  unfold castTo
  cases target with
  | primitive kind =>
    cases mode with
    | convert =>
      dsimp only
      split
      · rename_i w made
        exact .pure (World.knows_of_primitive? (Value.convert_primitive made))
      · exact .fail trivial
    | check =>
      dsimp only
      split
      · rename_i w made
        split at made
        · cases made
          exact .pure known
        · cases made
      · exact .fail trivial
  | _ =>
    cases mode <;>
    · refine Run.Carries.tables fun tables => ?_
      dsimp only
      split
      · rename_i w made
        exact .pure (World.knows_of_coerceTo known made)
      · exact .fail trivial

end

/-! ### Bodies -/

namespace Body.Carries

variable {frame : Frame}

theorem this (seated : W.Seats frame) :
    Body.Carries W I frame.this fun o => frame.this? = some o ∧ W.HasObject o := by
  unfold Frame.this
  cases found : frame.this? with
  | none => exact .fail trivial
  | some o => exact .pure ⟨rfl, (seated.this o found).1⟩

theorem readVar (slot : Nat) : Body.Carries W I (frame.readVar slot) W.Knows := by
  intro locals known
  cases there : locals[slot]? with
  | none =>
    rw [frame.readVar_none there]
    exact Body.Ensures.fail (J := W.KnowsAll) trivial locals known
  | some v =>
    rw [frame.readVar_some there]
    exact .pure ⟨known, World.knowsAll_iff.1 known v (List.mem_of_getElem? there)⟩

theorem writeVar (slot : Nat) {v : Value} (known : W.Knows v) :
    Body.Carries W I (frame.writeVar slot v) fun _ => True := by
  intro locals all
  change Run.Carries W I ((if slot < locals.length
    then (modify (·.set slot v) : Body Unit)
    else Body.fail (frame.missing .local_ slot)) locals) _
  split
  · refine .pure ⟨?_, trivial⟩
    rw [World.knowsAll_iff]
    intro w member
    rcases List.mem_or_eq_of_mem_set member with member | rfl
    · exact World.knowsAll_iff.1 all w member
    · exact known
  · exact Body.Ensures.fail (J := W.KnowsAll) (P := fun _ => True) trivial locals all

theorem branch {α : Type} {v : Value} {yes no : Body α} {P : α → Prop}
    (hyes : Body.Carries W I yes P) (hno : Body.Carries W I no P) :
    Body.Carries W I (do if ← truth v then yes else no) P := by
  refine (Ensures.truth trivial).bind fun b _ => ?_
  cases b with
  | true => exact hyes
  | false => exact hno

end Body.Carries

section

variable {calls : Calls} {frame : Frame}

mutual

/-- Expressions whose stores are permitted carry the invariant. -/
theorem eval_carries (carries : W.Carries I) (called : Invoke.Carries W I calls.invoke)
    (seated : W.Seats frame) :
    (e : Code.Expr) → (∀ a ∈ e.accesses, W.Permits I frame a) →
    Body.Carries W I (eval calls frame e) W.Knows
  | .const c, _ => by
    rw [eval]
    refine .pure ?_
    cases c <;> trivial
  | .var slot, _ => by
    rw [eval]
    exact .readVar slot
  | .this, _ => by
    rw [eval]
    exact (Body.Carries.this seated).bind fun o ho => .pure ho.2
  | .field slot, _ => by
    rw [eval]
    exact (Body.Carries.this seated).bind fun o ho => .lift (Run.Carries.readField carries ho.2 slot)
  | .static slot, _ => by
    rw [eval]
    exact .lift (Run.Carries.readStatic carries seated.cls slot)
  | .storeVar slot e, h => by
    rw [Code.Expr.accesses, List.forall_mem_append] at h
    rw [eval]
    refine (eval_carries carries called seated e h.1).bind fun v hv => ?_
    exact (Body.Carries.writeVar slot hv).bind fun _ _ => .pure hv
  | .storeField slot e, h => by
    rw [Code.Expr.accesses, List.forall_mem_append, List.forall_mem_singleton] at h
    rw [eval]
    refine (eval_carries carries called seated e h.1).bind fun v hv => ?_
    refine (Body.Carries.this seated).bind fun o ho => ?_
    exact (Body.Ensures.lift (Run.Carries.writeField (h.2 o ho.1) hv)).bind fun _ _ => .pure hv
  | .storeStatic slot e, h => by
    rw [Code.Expr.accesses, List.forall_mem_append, List.forall_mem_singleton] at h
    rw [eval]
    refine (eval_carries carries called seated e h.1).bind fun v hv => ?_
    exact (Body.Ensures.lift (Run.Carries.writeStatic h.2 hv)).bind fun _ _ => .pure hv
  | .unary op e, h => by
    rw [Code.Expr.accesses] at h
    rw [eval]
    exact (eval_carries carries called seated e h).bind fun v _ => .lift (unary_carries op v)
  | .binary op l r, h => by
    rw [Code.Expr.accesses, List.forall_mem_append] at h
    rw [eval]
    refine (eval_carries carries called seated l h.1).bind fun a ha => ?_
    refine (eval_carries carries called seated r h.2).bind fun b hb => ?_
    exact .lift (binary_carries called op ha hb)
  | .and l r, h => by
    rw [Code.Expr.accesses, List.forall_mem_append] at h
    rw [eval]
    refine (eval_carries carries called seated l h.1).bind fun a _ => ?_
    refine Body.Carries.branch ?_ (.pure trivial)
    refine (eval_carries carries called seated r h.2).bind fun b _ => ?_
    exact (Body.Ensures.truth trivial).bind fun _ _ => .pure trivial
  | .or l r, h => by
    rw [Code.Expr.accesses, List.forall_mem_append] at h
    rw [eval]
    refine (eval_carries carries called seated l h.1).bind fun a _ => ?_
    refine Body.Carries.branch (.pure trivial) ?_
    refine (eval_carries carries called seated r h.2).bind fun b _ => ?_
    exact (Body.Ensures.truth trivial).bind fun _ _ => .pure trivial
  | .conditional c t e, h => by
    rw [Code.Expr.accesses, List.forall_mem_append, List.forall_mem_append] at h
    rw [eval]
    refine (eval_carries carries called seated c h.1).bind fun v _ => ?_
    exact Body.Carries.branch (eval_carries carries called seated t h.2.1)
      (eval_carries carries called seated e h.2.2)
  | .cast target mode e, h => by
    rw [Code.Expr.accesses] at h
    rw [eval]
    refine (eval_carries carries called seated e h).bind fun v hv => ?_
    exact .lift (castTo_carries target mode hv)
  | .invoke receiver method args, h => by
    rw [Code.Expr.accesses, List.forall_mem_append, List.forall_mem_append] at h
    rw [eval]
    refine (eval_carries carries called seated receiver h.1).bind fun v hv => ?_
    refine (evalAll_carries carries called seated args h.2.1).bind fun vs hvs => ?_
    exact .lift (called v method vs hv hvs)
  | .invokeSuper method args, h => by
    rw [Code.Expr.accesses, List.forall_mem_append] at h
    rw [eval]
    refine (evalAll_carries carries called seated args h.1).bind fun vs hvs => ?_
    refine (Body.Carries.this seated).bind fun o ho => ?_
    exact .lift (invokeInherited_carries carries called ho.2 method hvs)

theorem evalAll_carries (carries : W.Carries I) (called : Invoke.Carries W I calls.invoke)
    (seated : W.Seats frame) :
    (es : List Code.Expr) → (∀ a ∈ Code.Expr.allAccesses es, W.Permits I frame a) →
    Body.Carries W I (evalAll calls frame es) W.KnowsAll
  | [], _ => by
    rw [evalAll]
    exact .pure trivial
  | e :: es, h => by
    rw [Code.Expr.allAccesses, List.forall_mem_append] at h
    rw [evalAll]
    refine (eval_carries carries called seated e h.1).bind fun v hv => ?_
    exact (evalAll_carries carries called seated es h.2).bind fun vs hvs => .pure ⟨hv, hvs⟩

end

theorem evalCondition_carries (carries : W.Carries I) (called : Invoke.Carries W I calls.invoke)
    (seated : W.Seats frame) {e : Code.Expr} (h : ∀ a ∈ e.accesses, W.Permits I frame a) :
    Body.Carries W I (evalCondition calls frame e) fun _ => True :=
  (eval_carries carries called seated e h).bind fun _ _ => .truth trivial

mutual

/-- Statements whose stores are permitted carry the invariant. -/
theorem exec_carries (carries : W.Carries I) (called : Invoke.Carries W I calls.invoke)
    (seated : W.Seats frame) :
    (s : Stmt) → {scope : List Nat} → (∀ a ∈ s.accesses scope, W.Permits I frame a) →
    Body.Carries W I (exec calls frame s) W.KnowsFlow
  | .expr e, scope, h => by
    rw [exec]
    have evaluated : Body.Carries W I (eval calls frame e) W.Knows := by
      cases e with
      | storeVar slot value =>
        rw [Stmt.accesses, List.forall_mem_append] at h
        rw [eval]
        refine (eval_carries carries called seated value h.1).bind fun v hv => ?_
        exact (Body.Carries.writeVar slot hv).bind fun _ _ => .pure hv
      | _ => exact eval_carries carries called seated _ h
    exact evaluated.bind fun _ _ => .pure trivial
  | .ret none, scope, _ => by
    rw [exec]
    exact .pure trivial
  | .ret (some e), scope, h => by
    rw [exec]
    exact (eval_carries carries called seated e h).bind fun v hv => .pure hv
  | .cond c t e, scope, h => by
    rw [Stmt.accesses, List.forall_mem_append, List.forall_mem_append] at h
    rw [exec]
    refine (evalCondition_carries carries called seated h.1).bind fun go _ => ?_
    cases go with
    | true => exact execAll_carries carries called seated t h.2.1
    | false => exact execAll_carries carries called seated e h.2.2
  | .loop c body, scope, h => by
    rw [Stmt.accesses, List.forall_mem_append] at h
    rw [exec]
    have condition := evalCondition_carries carries called seated h.1
    exact .loop trivial condition (execAll_carries carries called seated body h.2) trivial _
  | .throw e, scope, h => by
    rw [exec]
    exact (eval_carries carries called seated e h).bind fun v hv => .fail hv
  | .block body, scope, h => by
    rw [exec]
    exact execAll_carries carries called seated body h

theorem execAll_carries (carries : W.Carries I) (called : Invoke.Carries W I calls.invoke)
    (seated : W.Seats frame) :
    (ss : List Stmt) → {scope : List Nat} →
    (∀ a ∈ Stmt.allAccesses scope ss, W.Permits I frame a) →
    Body.Carries W I (execAll calls frame ss) W.KnowsFlow
  | [], scope, _ => by
    rw [execAll]
    exact .pure trivial
  | s :: ss, scope, h => by
    rw [Stmt.allAccesses, List.forall_mem_append] at h
    rw [execAll]
    refine (exec_carries carries called seated s h.1).bind fun flow known => ?_
    cases flow with
    | normal => exact execAll_carries carries called seated ss h.2
    | returned v => exact .pure known

end

theorem runBody_carries (carries : W.Carries I) (called : Invoke.Carries W I calls.invoke)
    (seated : W.Seats frame) {scope : List Nat} {body : List Stmt}
    (permitted : ∀ a ∈ Stmt.allAccesses scope body, W.Permits I frame a) (locals : Nat)
    {args : List Value} (hargs : W.KnowsAll args) :
    Run.Carries W I (runBody calls frame locals args body) W.KnowsFlow := by
  have start : W.KnowsAll (args ++ List.replicate (locals - args.length) .null) := by
    rw [World.knowsAll_iff]
    intro v member
    rcases List.mem_append.1 member with member | member
    · exact World.knowsAll_iff.1 hargs v member
    · rw [(List.mem_replicate.1 member).2]
      trivial
  have ran := execAll_carries carries called seated body permitted _ start
  exact .map (ran.mono fun r hr => hr.2)

theorem evalInitializer_carries (carries : W.Carries I) (called : Invoke.Carries W I calls.invoke)
    (seated : W.Seats frame) (type : TypeRef) {init : Code.Expr}
    (permitted : ∀ a ∈ init.accesses, W.Permits I frame a) :
    Run.Carries W I (evalInitializer calls frame type init) W.Knows := by
  have evaluated := eval_carries carries called seated init permitted [] trivial
  refine .bind (P := W.Knows) (.map (evaluated.mono fun r hr => hr.2)) fun v hv => ?_
  exact Run.Carries.coerce type hv

end

/-! ### Calls -/

section

variable {calls : Calls}

theorem nested_carries (carries : W.Carries I) (limit : Nat) {α : Type} {body : Run α}
    {P : α → Prop} (h : Run.Carries W I body P) : Run.Carries W I (Run.nested limit body) P :=
  .nested h (fun _ _ hs => carries.congr hs rfl rfl rfl rfl) trivial

theorem callMethod_carries (carries : W.Carries I) (obeys : W.Obeys I)
    (called : Invoke.Carries W I calls.invoke) {o : Object} (ho : W.HasObject o) {m : Code.Method}
    (hm : m ∈ o.cls.code.methods) {args : List Value} (hargs : W.KnowsAll args) :
    Run.Carries W I (callMethod calls o m args) W.Knows := by
  have seated := World.seats_object ho (obeys.instances o ho)
  have permitted := obeys.methods o ho m hm []
  have ran := runBody_carries carries called seated permitted m.locals hargs
  refine nested_carries carries _ (ran.bind fun flow known => ?_)
  cases flow with
  | normal => exact .pure trivial
  | returned v =>
    dsimp only
    split
    · exact .pure trivial
    · exact Run.Carries.coerce m.returnType known

theorem invokeObject_carries (carries : W.Carries I) (obeys : W.Obeys I)
    (called : Invoke.Carries W I calls.invoke) {o : Object} (ho : W.HasObject o) (name : String)
    {args : List Value} (hargs : W.KnowsAll args) :
    Run.Carries W I (invokeObject calls o name args) W.Knows := by
  refine Run.Carries.tables fun tables => ?_
  refine .bind (P := fun found => o.cls.findMethod tables name args = .ok found)
    (.ofExcept (fun _ found => found) ?_) fun found chosen => ?_
  · intro f refused
    unfold LoadedClass.findMethod at refused
    split at refused
    · cases refused
    · split at refused
      · cases refused
      · cases refused
        trivial
  · cases found with
    | none => exact invokeInherited_carries carries called ho name hargs
    | some found =>
      obtain ⟨m, taken⟩ := found
      obtain ⟨hm, _, _, made⟩ := LoadedClass.findMethod_some chosen
      exact callMethod_carries carries obeys called ho hm (knowsAll_of_coerceAll hargs made)

theorem builtin_carries {receiver : Value} {name : String} {args : List Value}
    (notObject : ∀ o, receiver ≠ .object o) (notNull : receiver ≠ .null) :
    Run.Carries W I (match Builtin.ofValue receiver name args with
      | some result => Run.ofExcept result
      | none => Run.fail (.noSuchMethod receiver.kindName name args.length)) W.Knows := by
  cases made : Builtin.ofValue receiver name args with
  | none => exact .fail trivial
  | some result =>
    refine .ofExcept ?_ ?_
    · rintro v rfl
      exact (World.answers_of_ofValue notObject notNull made).1
    · rintro f rfl
      exact World.knowsFailure_of_ofValue made

theorem invokeValue_carries (carries : W.Carries I) (obeys : W.Obeys I)
    (called : Invoke.Carries W I calls.invoke) : Invoke.Carries W I (invokeValue calls) := by
  intro receiver name args hr hargs
  unfold invokeValue
  cases receiver with
  | null => exact .fail trivial
  | object o => exact invokeObject_carries carries obeys called hr name hargs
  | handler id =>
    dsimp only
    split
    · exact invokeHandler_carries carries called _ _ _ hargs.2.2
    · exact .fail trivial
    · exact builtin_carries (by simp) (by simp)
  | _ => exact builtin_carries (by simp) (by simp)

end

/-! ### Runs that are cut short -/

/-- Calls that stop the run where `cut` says so, as if there were no more rounds. -/
def Invoke.cutAt (cut : Value → String → List Value → Store → Bool) (call : Invoke) : Invoke :=
  fun receiver name args s =>
    if cut receiver name args s then (.error .exhausted, s) else call receiver name args s

/-- The calls of a run of so many rounds that is cut short at some call, or at none. -/
def Calls.cutShort (cut : Value → String → List Value → Store → Bool) : Nat → Calls
  | 0 => ⟨fun _ _ _ => Run.exhausted, fun _ => Run.exhausted, 0⟩
  | rounds + 1 => ⟨Invoke.cutAt cut (invokeValue (cutShort cut rounds)),
      instantiateWith (cutShort cut rounds), rounds + 1⟩

/-- A run that is cut nowhere is a run. -/
theorem Calls.cutShort_never (rounds : Nat) :
    Calls.cutShort (fun _ _ _ _ => false) rounds = Calls.within rounds := by
  induction rounds with
  | zero => rfl
  | succ rounds ih =>
    rw [cutShort, ih, within]
    rfl

theorem cutShort_carries (carries : W.Carries I) (obeys : W.Obeys I)
    (cut : Value → String → List Value → Store → Bool) (rounds : Nat) :
    Invoke.Carries W I (Calls.cutShort cut rounds).invoke := by
  induction rounds with
  | zero => exact fun _ _ _ _ _ => .exhausted trivial
  | succ rounds ih =>
    intro receiver name args hr hargs s hs
    rw [Calls.cutShort]
    dsimp only [Invoke.cutAt]
    split
    · exact ⟨hs, trivial⟩
    · exact invokeValue_carries carries obeys ih receiver name args hr hargs s hs

/-! ### Initial values -/

section

variable {calls : Calls}

theorem initStatics_carries (carries : W.Carries I) (called : Invoke.Carries W I calls.invoke)
    {c : LoadedClass} (hc : W.classes c.id = some c) (may : ∀ slot, W.MayStoreStatic I c slot)
    (slot : Nat) (fields : List Code.Field) :
    Run.Carries W I (initStatics calls c slot fields) fun _ => True := by
  have permitted : ∀ a, W.Permits I ⟨none, c⟩ a := by
    intro a
    unfold World.Permits
    split
    · exact fun _ none_ => nomatch none_
    · exact may _
    · trivial
  induction fields generalizing slot with
  | nil => exact .pure trivial
  | cons f fields ih =>
    rw [initStatics]
    cases f.init with
    | none => exact ih (slot + 1)
    | some init =>
      have evaluated := evalInitializer_carries carries called (World.seats_class hc) f.type
        fun a (_ : a ∈ init.accesses) => permitted a
      refine .bind (.mapFailure (.staticInitializer c.code.name f.name) evaluated fun _ h => h) ?_
      exact fun v hv => .bind (Run.Carries.writeStatic (may slot) hv) fun _ _ => ih (slot + 1)

theorem initFields_carries (carries : W.Carries I) (called : Invoke.Carries W I calls.invoke)
    {o : Object} (seated : W.Seats ⟨some o, o.cls⟩) (may : ∀ slot, W.MayStoreField I o slot)
    (slot : Nat) {fields : List Code.Field}
    (permitted : ∀ f ∈ fields, ∀ e, f.init = some e → ∀ a ∈ e.accesses,
      W.Permits I ⟨some o, o.cls⟩ a) :
    Run.Carries W I (initFields calls o slot fields) fun _ => True := by
  induction fields generalizing slot with
  | nil => exact .pure trivial
  | cons f fields ih =>
    have next := ih (slot + 1) fun f member => permitted f (List.mem_cons_of_mem _ member)
    rw [initFields]
    cases given : f.init with
    | none => exact next
    | some init =>
      have evaluated := evalInitializer_carries carries called seated f.type
        (permitted f List.mem_cons_self init given)
      refine .bind evaluated fun v hv => ?_
      exact .bind (Run.Carries.writeField (may slot) hv) fun _ _ => next

end

end Classwright

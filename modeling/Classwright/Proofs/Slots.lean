import Classwright.Proofs.Furnished

/-!
# Bodies meet no missing slots

A frame admits the accesses to slots that it has. Code whose accesses are all admitted runs without
a missing slot and without a missing object, provided that the calls out of it do. The calls of a
run do so, by induction on the rounds that are left.
-/

namespace Classwright

open Check
open Code (Stmt)

variable {W : World}

/-- Calls keep the store furnished and meet no missing slots. -/
def Invoke.Safe (W : World) (call : Invoke) : Prop :=
  ∀ receiver name args, W.Knows receiver → W.KnowsAll args →
    (receiver = .null → name = "this" → W.CallsThis) →
    Run.Safe W (call receiver name args) W.Knows

/-! ### Fields from outside -/

namespace FieldHandle

variable {c : LoadedClass} {name : String} {h : FieldHandle} {o : Object}

/-- A handle that an object passes has the slot of a field of the object. -/
theorem check_safe (hc : W.classes c.id = some c) (handle : c.declaredField name = .ok h)
    (accessible : Bool) (ho : W.HasObject o) (writing : Bool) :
    Run.Safe W ((h.setAccessible accessible).check o writing) fun _ =>
      h.slot < o.cls.code.fields.length := by
  obtain ⟨rfl, at_⟩ := LoadedClass.declaredField_ok handle
  intro s hs
  have inside : o.cls.id = h.cls.id → h.slot < o.cls.code.fields.length := by
    intro same
    have own := hs.instances o ho
    rw [same, hc] at own
    rw [← Option.some.inj own]
    exact (List.getElem?_eq_some_iff.1 at_).1
  refine (?_ : Run.Safe W _ _) s hs
  unfold FieldHandle.check
  split
  · exact .fail ⟨trivial, by simp [Failure.root], by simp [Failure.root]⟩
  · rename_i same
    have same : o.cls.id = h.cls.id := by simpa [FieldHandle.setAccessible] using same
    split
    · exact .pure (inside same)
    · exact .fail ⟨trivial, by simp [Failure.root], by simp [Failure.root]⟩

theorem get_safe (hc : W.classes c.id = some c) (handle : c.declaredField name = .ok h)
    (accessible : Bool) (ho : W.HasObject o) :
    Run.Safe W ((h.setAccessible accessible).get o) W.Knows :=
  (check_safe hc handle accessible ho false).bind fun _ inside => Run.Safe.readField ho inside

theorem set_safe (hc : W.classes c.id = some c) (handle : c.declaredField name = .ok h)
    (accessible : Bool) (ho : W.HasObject o) {v : Value} (hv : W.Knows v) :
    Run.Safe W ((h.setAccessible accessible).set o v) fun _ => True := by
  refine (check_safe hc handle accessible ho true).bind fun _ inside => ?_
  refine .bind (P := fun _ => True) (.get fun s _ => .pure trivial) fun tables _ => ?_
  cases made : v.coerceTo tables h.info.type with
  | none =>
    have failed : Run.Safe W (Run.fail (.illegalArgument
        (.unsettable h.info.type h.cls.code.name h.info.name v.kindName))) fun _ : Unit => True :=
      .fail ⟨trivial, nofun, nofun⟩
    simpa only [FieldHandle.setAccessible, made] using failed
  | some w =>
    have written := Run.Safe.writeField ho inside (World.knows_of_coerceTo hv made)
    simpa only [FieldHandle.setAccessible, made] using written

end FieldHandle

theorem declaredField_safe (c : LoadedClass) (name : String) :
    Run.Safe W (Run.ofExcept (c.declaredField name)) fun h => c.declaredField name = .ok h := by
  refine .ofExcept (fun _ made => made) fun f refused => ?_
  obtain ⟨className, field, rfl⟩ := LoadedClass.declaredField_error refused
  exact ⟨trivial, nofun, nofun⟩

/-! ### Host code and builtin methods -/

/-- What harmless host code asks for meets no missing slots. -/
theorem HostRequest.run_safe {calls : Calls} (safe : Invoke.Safe W calls.invoke)
    {request : HostRequest} (known : W.KnowsRequest request)
    (makesNone : ∀ c, request ≠ .instantiate c) : Run.Safe W (request.run calls) W.Knows := by
  cases request with
  | invoke o method args => exact safe (.object o) method args known.1 known.2 nofun
  | instantiate c => exact absurd rfl (makesNone c)
  | getField c field accessible o =>
    exact (declaredField_safe c field).bind fun h handle =>
      FieldHandle.get_safe known.1 handle accessible known.2
  | setField c field accessible o v =>
    refine (declaredField_safe c field).bind fun h handle => ?_
    exact (FieldHandle.set_safe known.1 handle accessible known.2.1 known.2.2).bind
      fun _ _ => .pure trivial

theorem Foreign.run_safe {calls : Calls} (safe : Invoke.Safe W calls.invoke) {code : Foreign}
    (harmless : W.Harmless code) : Run.Safe W (code.run calls) W.Knows := by
  induction harmless with
  | answer known => exact .pure known
  | fail blameless => exact .fail blameless
  | ask known makesNone _ ih =>
    refine (Run.Ensures.outcome (HostRequest.run_safe safe known makesNone) trivial).bind
      fun r ended => ih r ?_
    cases r <;> exact ended
  | update _ ih =>
    intro s hs
    exact ih _ _ (hs.congr rfl rfl rfl rfl)

theorem invokeHandler_safe {calls : Calls} (safe : Invoke.Safe W calls.invoke) (id : Nat)
    (interface : Descriptor) (m : Method) {args : List Value} (hargs : W.KnowsAll args) :
    Run.Safe W (invokeHandler calls id interface m args) W.Knows := by
  refine .bind (.modify fun s hs => hs.congr rfl rfl rfl rfl) fun _ _ => .get fun s hs => ?_
  cases found : s.handlers[id]? with
  | none => exact .pure trivial
  | some code =>
    have harmless := hs.handlers code (Array.mem_of_getElem? found)
    exact Foreign.run_safe safe (harmless W .refl interface m args hargs)

theorem textOf_safe {call : Invoke} (safe : Invoke.Safe W call) {v : Value} (hv : W.Knows v) :
    Run.Safe W (textOf call v) fun _ => True := by
  cases v with
  | object o =>
    refine .bind (safe (.object o) "toString" [] hv trivial nofun) fun w _ => ?_
    cases w <;> exact .pure trivial
  | _ => exact .pure trivial

theorem blameless_of_ofValue {r : Value} {name : String} {args : List Value} {f : Failure}
    (made : Builtin.ofValue r name args = some (.error f)) : W.Blameless f := by
  obtain ⟨method, member, v, refused⟩ := World.refused_of_ofValue made
  have other : ∀ method ∈ ["concat", "contains"], "String." ++ method ++ " argument" ≠ "this" := by
    decide
  cases v with
  | str s => cases refused
  | null =>
    cases refused
    refine ⟨trivial, nofun, fun same => ?_⟩
    exact absurd (Failure.nullReference.inj same) (other method member)
  | _ =>
    cases refused
    exact ⟨trivial, nofun, nofun⟩

theorem knowsAll_of_coerceAll {tables : Tables} {types : List TypeRef} {values taken : List Value}
    (known : W.KnowsAll values) (made : Value.coerceAll tables types values = some taken) :
    W.KnowsAll taken := by
  induction types generalizing values taken with
  | nil =>
    cases values with
    | nil => cases made; trivial
    | cons v vs => cases made
  | cons t ts ih =>
    cases values with
    | nil => cases made
    | cons v vs =>
      simp only [Value.coerceAll, Option.bind_eq_bind, Option.bind_eq_some_iff,
        Option.pure_def, Option.some.injEq] at made
      obtain ⟨w, first, ws, rest, rfl⟩ := made
      exact ⟨World.knows_of_coerceTo known.1 first, ih known.2 rest⟩

/-- The arguments of native code are known, or they fit no declaration. -/
theorem nativeArguments_safe {tables : Tables} {d : Descriptor} {name : String} {args : List Value}
    (known : W.KnowsAll args) :
    Run.Safe W (Run.ofExcept (nativeArguments tables d name args)) W.KnowsAll := by
  refine .ofExcept (fun taken made => ?_) fun f made => ?_
  · unfold nativeArguments at made
    split at made
    · cases made
      exact known
    · split at made
      · rename_i found
        cases made
        obtain ⟨m, _, accepted⟩ := List.exists_of_findSome?_eq_some found
        exact knowsAll_of_coerceAll known accepted
      · cases made
  · unfold nativeArguments at made
    split at made
    · cases made
    · split at made
      · cases made
      · cases made
        exact ⟨trivial, nofun, nofun⟩

theorem invokeInherited_safe {calls : Calls} (safe : Invoke.Safe W calls.invoke) {o : Object}
    (ho : W.HasObject o) (name : String) {args : List Value} (hargs : W.KnowsAll args) :
    Run.Safe W (invokeInherited calls o name args) W.Knows := by
  refine .get fun s hs => ?_
  cases found : s.inheritedNative? o.cls name args.length with
  | some native =>
    obtain ⟨host, code⟩ := native
    obtain ⟨host', _, here⟩ := List.exists_of_findSome?_eq_some found
    obtain ⟨code', native_, pair⟩ := Option.map_eq_some_iff.1 here
    cases pair
    have harmless := hs.natives _ _ _ _ _ native_ W .refl
    refine .bind (nativeArguments_safe hargs) fun taken known => ?_
    exact Foreign.run_safe safe (harmless o taken ho known)
  | none =>
    dsimp only
    cases made : Builtin.ofObject o name args with
    | none =>
      refine .fail ?_
      split
      · exact ⟨trivial, nofun, nofun⟩
      · exact ⟨trivial, nofun, nofun⟩
    | some v => exact .pure (World.holds_of_ofObject (W := W) made).1

/-! ### Operators and casts -/

theorem binary_safe {call : Invoke} (safe : Invoke.Safe W call) (op : BinaryOp) {a b : Value}
    (ha : W.Knows a) (hb : W.Knows b) : Run.Safe W (binary call op a b) W.Knows := by
  unfold binary
  split
  · refine .bind (textOf_safe safe ha) fun left _ => ?_
    refine .bind (textOf_safe safe hb) fun right _ => ?_
    exact .pure trivial
  · refine .ofExcept (fun w made => ?_) fun f failed => ?_
    · obtain ⟨p, result⟩ := Arithmetic.exists_primitive?_binary made
      exact World.knows_of_primitive? result
    · rcases Arithmetic.binary_error failed with rfl | rfl
      · exact ⟨trivial, nofun, nofun⟩
      · exact ⟨trivial, nofun, nofun⟩

theorem unary_safe (op : Code.UnaryOp) (v : Value) :
    Run.Safe W (Run.ofExcept (Arithmetic.unary op v)) W.Knows := by
  refine .ofExcept (fun w made => ?_) fun f failed => ?_
  · obtain ⟨p, result⟩ := Arithmetic.exists_primitive?_unary made
    exact World.knows_of_primitive? result
  · obtain ⟨text, rfl⟩ := Arithmetic.unary_error failed
    exact ⟨trivial, nofun, nofun⟩

theorem castTo_safe (target : TypeRef) (mode : Code.CastMode) {v : Value} (known : W.Knows v) :
    Run.Safe W (castTo target mode v) W.Knows := by
  have fails : ∀ {t : TypeRef},
      Run.Safe W (Run.fail (.invalidResult t.canonicalName v.kindName)) W.Knows :=
    .fail ⟨trivial, nofun, nofun⟩
  unfold castTo
  cases target with
  | primitive kind =>
    cases mode with
    | convert =>
      dsimp only
      split
      · rename_i w made
        exact .pure (World.knows_of_primitive? (Value.convert_primitive made))
      · exact fails
    | check =>
      dsimp only
      split
      · rename_i w made
        split at made
        · cases made
          exact .pure known
        · cases made
      · exact fails
  | _ =>
    cases mode <;>
    · refine .bind (P := fun _ => True) (.get fun s _ => .pure trivial) fun tables _ => ?_
      dsimp only
      split
      · rename_i w made
        exact .pure (World.knows_of_coerceTo known made)
      · exact fails

/-! ### Bodies -/

namespace World

/-- The frame has the slot that is touched, and an object if there has to be one. -/
structure Admits (W : World) (frame : Frame) (locals : Nat) (a : Access) : Prop where
  below : a.Below locals frame.cls.code.bound
  this : a.needsThis = true → frame.this?.isSome = true
  call : a = .call "this" → W.CallsThis

/-- The class of a frame is linked, and its object is one of the class. -/
structure Seats (W : World) (frame : Frame) : Prop where
  cls : W.classes frame.cls.id = some frame.cls
  this : ∀ o, frame.this? = some o → W.HasObject o ∧ o.cls = frame.cls

/-- So many variables, with values that exist. -/
def Holds (W : World) (count : Nat) (locals : List Value) : Prop :=
  locals.length = count ∧ W.KnowsAll locals

end World

/-- The part of a body keeps the store furnished and its variables in their slots, and meets no
missing slot. -/
abbrev Body.Safe {α : Type} (W : World) (count : Nat) (body : Body α) (P : α → Prop) : Prop :=
  Body.Ensures W.Furnished W.Tolerates (W.Holds count) body P

namespace Body.Safe

variable {frame : Frame} {count slot : Nat}

theorem this (seated : W.Seats frame) (present : frame.this?.isSome = true) :
    Body.Safe W count frame.this fun o => W.HasObject o ∧ o.cls = frame.cls := by
  unfold Frame.this
  cases found : frame.this? with
  | none =>
    rw [found] at present
    cases present
  | some o => exact .pure (seated.this o found)

theorem readVar (inside : slot < count) : Body.Safe W count (frame.readVar slot) W.Knows := by
  intro locals held
  have inside : slot < locals.length := by rwa [held.1]
  have there : locals[slot]? = some locals[slot] := List.getElem?_eq_getElem inside
  rw [frame.readVar_some there]
  exact .pure ⟨held, World.knowsAll_iff.1 held.2 _ (List.getElem_mem _)⟩

theorem writeVar (inside : slot < count) {v : Value} (known : W.Knows v) :
    Body.Safe W count (frame.writeVar slot v) fun _ => True := by
  intro locals held
  change Run.Safe W ((if slot < locals.length
    then (modify (·.set slot v) : Body Unit)
    else Body.fail (frame.missing .local_ slot)) locals) _
  rw [if_pos (by rwa [held.1])]
  refine .pure ⟨⟨?_, ?_⟩, trivial⟩
  · rw [List.length_set, held.1]
  · rw [World.knowsAll_iff]
    intro w member
    rcases List.mem_or_eq_of_mem_set member with member | rfl
    · exact World.knowsAll_iff.1 held.2 w member
    · exact known

theorem branch {α : Type} {v : Value} {yes no : Body α} {P : α → Prop}
    (hyes : Body.Safe W count yes P) (hno : Body.Safe W count no P) :
    Body.Safe W count (do if ← truth v then yes else no) P := by
  refine (Ensures.truth ⟨trivial, nofun, nofun⟩).bind fun b _ => ?_
  cases b with
  | true => exact hyes
  | false => exact hno

end Body.Safe

section

variable {calls : Calls} {frame : Frame} {count : Nat}

mutual

/-- Expressions whose accesses are admitted meet no missing slots. -/
theorem eval_safe (safe : Invoke.Safe W calls.invoke) (seated : W.Seats frame) :
    (e : Code.Expr) → (∀ a ∈ e.accesses, W.Admits frame count a) →
    Body.Safe W count (eval calls frame e) W.Knows
  | .const c, _ => by
    rw [eval]
    refine .pure ?_
    cases c <;> trivial
  | .var slot, h => by
    rw [eval]
    exact .readVar (h _ (List.mem_singleton.2 rfl)).below
  | .this, h => by
    rw [eval]
    exact (Body.Safe.this seated ((h _ (List.mem_singleton.2 rfl)).this rfl)).bind
      fun o ho => .pure ho.1
  | .field slot, h => by
    have admitted := h _ (List.mem_singleton.2 rfl)
    rw [eval]
    refine (Body.Safe.this seated (admitted.this rfl)).bind fun o ho => ?_
    exact .lift (Run.Safe.readField ho.1 (by rw [ho.2]; exact admitted.below))
  | .static slot, h => by
    rw [eval]
    exact .lift (Run.Safe.readStatic seated.cls (h _ (List.mem_singleton.2 rfl)).below)
  | .storeVar slot e, h => by
    rw [Code.Expr.accesses, List.forall_mem_append, List.forall_mem_singleton] at h
    rw [eval]
    refine (eval_safe safe seated e h.1).bind fun v hv => ?_
    exact (Body.Safe.writeVar h.2.below hv).bind fun _ _ => .pure hv
  | .storeField slot e, h => by
    rw [Code.Expr.accesses, List.forall_mem_append, List.forall_mem_singleton] at h
    rw [eval]
    refine (eval_safe safe seated e h.1).bind fun v hv => ?_
    refine (Body.Safe.this seated (h.2.this rfl)).bind fun o ho => ?_
    have inside : slot < o.cls.code.fields.length := by
      rw [ho.2]
      exact h.2.below
    exact (Body.Ensures.lift (Run.Safe.writeField ho.1 inside hv)).bind fun _ _ => .pure hv
  | .storeStatic slot e, h => by
    rw [Code.Expr.accesses, List.forall_mem_append, List.forall_mem_singleton] at h
    rw [eval]
    refine (eval_safe safe seated e h.1).bind fun v hv => ?_
    have written := Run.Safe.writeStatic seated.cls h.2.below hv
    exact (Body.Ensures.lift written).bind fun _ _ => .pure hv
  | .unary op e, h => by
    rw [Code.Expr.accesses] at h
    rw [eval]
    exact (eval_safe safe seated e h).bind fun v _ => .lift (unary_safe op v)
  | .binary op l r, h => by
    rw [Code.Expr.accesses, List.forall_mem_append] at h
    rw [eval]
    refine (eval_safe safe seated l h.1).bind fun a ha => ?_
    exact (eval_safe safe seated r h.2).bind fun b hb => .lift (binary_safe safe op ha hb)
  | .and l r, h => by
    rw [Code.Expr.accesses, List.forall_mem_append] at h
    rw [eval]
    refine (eval_safe safe seated l h.1).bind fun a _ => Body.Safe.branch ?_ (.pure trivial)
    refine (eval_safe safe seated r h.2).bind fun b _ => ?_
    exact (Body.Ensures.truth ⟨trivial, nofun, nofun⟩).bind fun _ _ => .pure trivial
  | .or l r, h => by
    rw [Code.Expr.accesses, List.forall_mem_append] at h
    rw [eval]
    refine (eval_safe safe seated l h.1).bind fun a _ => Body.Safe.branch (.pure trivial) ?_
    refine (eval_safe safe seated r h.2).bind fun b _ => ?_
    exact (Body.Ensures.truth ⟨trivial, nofun, nofun⟩).bind fun _ _ => .pure trivial
  | .conditional c t e, h => by
    rw [Code.Expr.accesses, List.forall_mem_append, List.forall_mem_append] at h
    rw [eval]
    refine (eval_safe safe seated c h.1).bind fun v _ => ?_
    exact Body.Safe.branch (eval_safe safe seated t h.2.1) (eval_safe safe seated e h.2.2)
  | .cast target mode e, h => by
    rw [Code.Expr.accesses] at h
    rw [eval]
    exact (eval_safe safe seated e h).bind fun v hv => .lift (castTo_safe target mode hv)
  | .invoke receiver method args, h => by
    rw [Code.Expr.accesses, List.forall_mem_append, List.forall_mem_append,
      List.forall_mem_singleton] at h
    rw [eval]
    refine (eval_safe safe seated receiver h.1).bind fun v hv => ?_
    refine (evalAll_safe safe seated args h.2.1).bind fun vs hvs => ?_
    refine .lift (safe v method vs hv hvs fun _ name => h.2.2.call ?_)
    rw [name]
  | .invokeSuper method args, h => by
    rw [Code.Expr.accesses, List.forall_mem_append, List.forall_mem_singleton] at h
    rw [eval]
    refine (evalAll_safe safe seated args h.1).bind fun vs hvs => ?_
    refine (Body.Safe.this seated (h.2.this rfl)).bind fun o ho => ?_
    exact .lift (invokeInherited_safe safe ho.1 method hvs)

theorem evalAll_safe (safe : Invoke.Safe W calls.invoke) (seated : W.Seats frame) :
    (es : List Code.Expr) → (∀ a ∈ Code.Expr.allAccesses es, W.Admits frame count a) →
    Body.Safe W count (evalAll calls frame es) W.KnowsAll
  | [], _ => by
    rw [evalAll]
    exact .pure trivial
  | e :: es, h => by
    rw [Code.Expr.allAccesses, List.forall_mem_append] at h
    rw [evalAll]
    refine (eval_safe safe seated e h.1).bind fun v hv => ?_
    exact (evalAll_safe safe seated es h.2).bind fun vs hvs => .pure ⟨hv, hvs⟩

end

theorem evalCondition_safe (safe : Invoke.Safe W calls.invoke) (seated : W.Seats frame)
    {e : Code.Expr} (h : ∀ a ∈ e.accesses, W.Admits frame count a) :
    Body.Safe W count (evalCondition calls frame e) fun _ => True :=
  (eval_safe safe seated e h).bind fun _ _ => .truth ⟨trivial, nofun, nofun⟩

end

/-- What a body returns exists. -/
def World.KnowsFlow (W : World) : Flow → Prop
  | .normal => True
  | .returned v => W.Knows v

section

variable {calls : Calls} {frame : Frame} {count : Nat}

mutual

/-- Statements whose accesses are admitted meet no missing slots. -/
theorem exec_safe (safe : Invoke.Safe W calls.invoke) (seated : W.Seats frame) :
    (s : Stmt) → {scope : List Nat} → (∀ a ∈ s.accesses scope, W.Admits frame count a) →
    Body.Safe W count (exec calls frame s) W.KnowsFlow
  | .expr e, scope, h => by
    rw [exec]
    have evaluated : Body.Safe W count (eval calls frame e) W.Knows := by
      cases e with
      | storeVar slot value =>
        rw [Stmt.accesses, List.forall_mem_append, List.forall_mem_singleton] at h
        have inside : slot < count := by
          have below := h.2.below
          split at below <;> exact below
        rw [eval]
        refine (eval_safe safe seated value h.1).bind fun v hv => ?_
        exact (Body.Safe.writeVar inside hv).bind fun _ _ => .pure hv
      | _ => exact eval_safe safe seated _ h
    exact evaluated.bind fun _ _ => .pure trivial
  | .ret none, scope, _ => by
    rw [exec]
    exact .pure trivial
  | .ret (some e), scope, h => by
    rw [exec]
    exact (eval_safe safe seated e h).bind fun v hv => .pure hv
  | .cond c t e, scope, h => by
    rw [Stmt.accesses, List.forall_mem_append, List.forall_mem_append] at h
    rw [exec]
    refine (evalCondition_safe safe seated h.1).bind fun go _ => ?_
    cases go with
    | true => exact execAll_safe safe seated t h.2.1
    | false => exact execAll_safe safe seated e h.2.2
  | .loop c body, scope, h => by
    rw [Stmt.accesses, List.forall_mem_append] at h
    rw [exec]
    have condition := evalCondition_safe safe seated h.1
    exact .loop trivial condition (execAll_safe safe seated body h.2) trivial _
  | .throw e, scope, h => by
    rw [exec]
    exact (eval_safe safe seated e h).bind fun v hv => .fail ⟨hv, nofun, nofun⟩
  | .block body, scope, h => by
    rw [exec]
    exact execAll_safe safe seated body h

theorem execAll_safe (safe : Invoke.Safe W calls.invoke) (seated : W.Seats frame) :
    (ss : List Stmt) → {scope : List Nat} →
    (∀ a ∈ Stmt.allAccesses scope ss, W.Admits frame count a) →
    Body.Safe W count (execAll calls frame ss) W.KnowsFlow
  | [], scope, _ => by
    rw [execAll]
    exact .pure trivial
  | s :: ss, scope, h => by
    rw [Stmt.allAccesses, List.forall_mem_append] at h
    rw [execAll]
    refine (exec_safe safe seated s h.1).bind fun flow known => ?_
    cases flow with
    | normal => exact execAll_safe safe seated ss h.2
    | returned v => exact .pure known

end

end

end Classwright

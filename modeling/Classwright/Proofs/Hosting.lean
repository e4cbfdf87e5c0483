import Classwright.Proofs.Slots

/-!
# No run misses a slot

`World.Hosted` are the stores that a host comes to by registering types and handlers, linking
classes that were compiled, making objects, invoking methods and setting fields, each with the world
of what there is then. Every such store is furnished, and from each of them every call of the host
ends without a missing slot.
-/

namespace Classwright

open Check
open Code (Stmt)

namespace World

/-- All classes of the world touch slots that they have, and all objects are of its classes. -/
structure Built (W : World) : Prop where
  numbered : ∀ n c, W.classes n = some c → c.id = n
  slots : ∀ n c, W.classes n = some c → c.code.WellScoped
  instances : ∀ o, W.HasObject o → W.classes o.cls.id = some o.cls

variable {W : World}

theorem Built.own (built : W.Built) {n : Nat} {c : LoadedClass} (hc : W.classes n = some c) :
    W.classes c.id = some c := by
  rw [built.numbered n c hc]
  exact hc

theorem seats_object {o : Object} (ho : W.HasObject o) (hc : W.classes o.cls.id = some o.cls) :
    W.Seats ⟨some o, o.cls⟩ := by
  refine ⟨hc, ?_⟩
  rintro _ ⟨⟩
  exact ⟨ho, rfl⟩

theorem seats_class {c : LoadedClass} (hc : W.classes c.id = some c) : W.Seats ⟨none, c⟩ := by
  refine ⟨hc, ?_⟩
  rintro _ ⟨⟩

theorem callsThis_of {c : LoadedClass} (hc : W.classes c.id = some c) {a : Access}
    (called : ∀ name, a = .call name → c.code.Calls name) (this : a = .call "this") : W.CallsThis :=
  ⟨c.id, c, hc, called "this" this⟩

end World

variable {W : World}

/-! ### Calls -/

/-- Bodies of scoped code meet no missing slots when they start with a value for each parameter. -/
theorem runBody_safe {calls : Calls} (safe : Invoke.Safe W calls.invoke) {o : Object}
    (ho : W.HasObject o) (hc : W.classes o.cls.id = some o.cls) {params : List TypeRef}
    {locals : Nat} {body : List Stmt} (slots : o.cls.code.BodyScoped params locals body)
    (called : ∀ name, .call name ∈ Stmt.allAccesses (Code.paramScope params) body →
      o.cls.code.Calls name) {args : List Value} (hargs : W.KnowsAll args)
    (length : args.length = params.length) :
    Run.Safe W (runBody calls ⟨some o, o.cls⟩ locals args body) W.KnowsFlow := by
  have admitted : ∀ a ∈ Stmt.allAccesses (Code.paramScope params) body,
      W.Admits ⟨some o, o.cls⟩ locals a := fun a member =>
    { below := slots.below a member
      this := fun _ => rfl
      call := World.callsThis_of hc fun name same => called name (same ▸ member) }
  have start : W.Holds locals (args ++ List.replicate (locals - args.length) .null) := by
    constructor
    · have enough := slots.enough
      rw [List.length_append, List.length_replicate]
      omega
    · rw [World.knowsAll_iff]
      intro v member
      rcases List.mem_append.1 member with member | member
      · exact World.knowsAll_iff.1 hargs v member
      · rw [(List.mem_replicate.1 member).2]
        trivial
  have ran := execAll_safe safe (World.seats_object ho hc) body admitted _ start
  exact .map (ran.mono fun r hr => hr.2)

theorem callMethod_safe (built : W.Built) {calls : Calls} (safe : Invoke.Safe W calls.invoke)
    {o : Object} (ho : W.HasObject o) {m : Code.Method} (hm : m ∈ o.cls.code.methods)
    {args : List Value} (hargs : W.KnowsAll args) (length : args.length = m.params.length) :
    Run.Safe W (callMethod calls o m args) W.Knows := by
  have hc := built.instances o ho
  have ran := runBody_safe safe ho hc ((built.slots _ _ hc).methods m hm)
    (fun name called => .inl ⟨m, hm, called⟩) hargs length
  refine .nested (ran.bind fun flow known => ?_) (fun s n hs => hs.congr rfl rfl rfl rfl)
    ⟨trivial, nofun, nofun⟩
  cases flow with
  | normal => exact .pure trivial
  | returned v =>
    dsimp only
    split
    · exact .pure trivial
    · exact Run.Safe.coerce m.returnType known

theorem length_of_coerceAll {tables : Tables} {types : List TypeRef} {values taken : List Value}
    (made : Value.coerceAll tables types values = some taken) : taken.length = types.length := by
  induction types generalizing values taken with
  | nil =>
    cases values with
    | nil => cases made; rfl
    | cons v vs => cases made
  | cons t ts ih =>
    cases values with
    | nil => cases made
    | cons v vs =>
      simp only [Value.coerceAll, Option.bind_eq_bind, Option.bind_eq_some_iff,
        Option.pure_def, Option.some.injEq] at made
      obtain ⟨w, _, ws, rest, rfl⟩ := made
      rw [List.length_cons, List.length_cons, ih rest]

theorem invokeObject_safe (built : W.Built) {calls : Calls} (safe : Invoke.Safe W calls.invoke)
    {o : Object} (ho : W.HasObject o) (name : String) {args : List Value}
    (hargs : W.KnowsAll args) : Run.Safe W (invokeObject calls o name args) W.Knows := by
  refine .bind (P := fun _ => True) (.get fun s _ => .pure trivial) fun tables _ => ?_
  refine .bind (P := fun found => o.cls.findMethod tables name args = .ok found)
    (.ofExcept (fun _ found => found) ?_) fun found chosen => ?_
  · intro f refused
    unfold LoadedClass.findMethod at refused
    split at refused
    · cases refused
    · split at refused
      · cases refused
      · cases refused
        exact ⟨trivial, nofun, nofun⟩
  · cases found with
    | none => exact invokeInherited_safe safe ho name hargs
    | some found =>
      obtain ⟨m, taken⟩ := found
      obtain ⟨hm, _, _, made⟩ := LoadedClass.findMethod_some chosen
      exact callMethod_safe built safe ho hm (knowsAll_of_coerceAll hargs made)
        (length_of_coerceAll made)

theorem builtin_safe {receiver : Value} {name : String} {args : List Value}
    (notObject : ∀ o, receiver ≠ .object o) (notNull : receiver ≠ .null) :
    Run.Safe W (match Builtin.ofValue receiver name args with
      | some result => Run.ofExcept result
      | none => Run.fail (.noSuchMethod receiver.kindName name args.length)) W.Knows := by
  cases made : Builtin.ofValue receiver name args with
  | none => exact .fail ⟨trivial, nofun, nofun⟩
  | some result =>
    refine .ofExcept ?_ ?_
    · rintro v rfl
      exact (World.answers_of_ofValue notObject notNull made).1
    · rintro f rfl
      exact blameless_of_ofValue made

theorem invokeValue_safe (built : W.Built) {calls : Calls} (safe : Invoke.Safe W calls.invoke) :
    Invoke.Safe W (invokeValue calls) := by
  intro receiver name args hr hargs this
  unfold invokeValue
  cases receiver with
  | null =>
    refine .fail ⟨trivial, nofun, fun same => this rfl ?_⟩
    exact Failure.nullReference.inj same
  | object o => exact invokeObject_safe built safe hr name hargs
  | handler id =>
    dsimp only
    split
    · exact invokeHandler_safe safe _ _ _ hargs.2.2
    · exact .fail ⟨trivial, nofun, nofun⟩
    · exact builtin_safe (by simp) (by simp)
  | _ => exact builtin_safe (by simp) (by simp)

theorem within_safe (built : W.Built) (rounds : Nat) :
    Invoke.Safe W (Calls.within rounds).invoke := by
  induction rounds with
  | zero => exact fun _ _ _ _ _ _ => .exhausted trivial
  | succ rounds ih => exact invokeValue_safe built ih

theorem invoke_safe (built : W.Built) : Invoke.Safe W invoke :=
  invokeValue_safe built (within_safe built unlimited)

/-! ### Initial values -/

theorem evalInitializer_safe {calls : Calls} (safe : Invoke.Safe W calls.invoke) {frame : Frame}
    (seated : W.Seats frame) (type : TypeRef) {init : Code.Expr}
    (admitted : ∀ a ∈ init.accesses, W.Admits frame 0 a) :
    Run.Safe W (evalInitializer calls frame type init) W.Knows := by
  have evaluated := eval_safe safe seated init admitted [] ⟨rfl, trivial⟩
  refine .bind (P := W.Knows) (.map (evaluated.mono fun r hr => hr.2)) fun v hv => ?_
  exact Run.Safe.coerce type hv

theorem initStatics_safe (built : W.Built) {calls : Calls} (safe : Invoke.Safe W calls.invoke)
    {c : LoadedClass} (hc : W.classes c.id = some c) (done rest : List Code.Field)
    (all : c.code.statics = done ++ rest) :
    Run.Safe W (initStatics calls c done.length rest) fun _ => True := by
  induction rest generalizing done with
  | nil => exact .pure trivial
  | cons f rest ih =>
    have next := ih (done ++ [f]) (by rw [all, List.append_assoc, List.singleton_append])
    rw [List.length_append, List.length_singleton] at next
    rw [initStatics]
    have member : f ∈ c.code.statics := by
      rw [all]
      exact List.mem_append_right _ List.mem_cons_self
    cases given : f.init with
    | none => exact next
    | some init =>
      have slots := (built.slots _ _ hc).statics f member init given
      have admitted : ∀ a ∈ init.accesses, W.Admits ⟨none, c⟩ 0 a := fun a touched =>
        { below := (slots a touched).1
          this := fun needed => by
            rw [(slots a touched).2] at needed
            cases needed
          call := World.callsThis_of hc fun name same =>
            .inr (.inr ⟨f, List.mem_append_right _ member, init, given, same ▸ touched⟩) }
      have evaluated := Run.Ensures.mapFailure (.staticInitializer c.code.name f.name)
        (evalInitializer_safe safe (World.seats_class hc) f.type admitted)
        fun f blameless => ⟨blameless.known, blameless.slot, blameless.this⟩
      have inside : done.length < c.code.statics.length := by
        rw [all, List.length_append, List.length_cons]
        omega
      refine evaluated.bind fun v hv => ?_
      exact (Run.Safe.writeStatic hc inside hv).bind fun _ _ => next

theorem initFields_safe (built : W.Built) {calls : Calls} (safe : Invoke.Safe W calls.invoke)
    {o : Object} (ho : W.HasObject o) (done rest : List Code.Field)
    (all : o.cls.code.fields = done ++ rest) :
    Run.Safe W (initFields calls o done.length rest) fun _ => True := by
  induction rest generalizing done with
  | nil => exact .pure trivial
  | cons f rest ih =>
    have next := ih (done ++ [f]) (by rw [all, List.append_assoc, List.singleton_append])
    rw [List.length_append, List.length_singleton] at next
    rw [initFields]
    have hc := built.instances o ho
    have member : f ∈ o.cls.code.fields := by
      rw [all]
      exact List.mem_append_right _ List.mem_cons_self
    cases given : f.init with
    | none => exact next
    | some init =>
      have slots := (built.slots _ _ hc).fields f member init given
      have admitted : ∀ a ∈ init.accesses, W.Admits ⟨some o, o.cls⟩ 0 a := fun a touched =>
        { below := slots a touched
          this := fun _ => rfl
          call := World.callsThis_of hc fun name same =>
            .inr (.inr ⟨f, List.mem_append_left _ member, init, given, same ▸ touched⟩) }
      have evaluated := evalInitializer_safe safe (World.seats_object ho hc) f.type admitted
      have inside : done.length < o.cls.code.fields.length := by
        rw [all, List.length_append, List.length_cons]
        omega
      refine evaluated.bind fun v hv => ?_
      exact (Run.Safe.writeField ho inside hv).bind fun _ _ => next

/-! ### What a host does -/

mutual

/-- What exists goes on to exist. -/
theorem World.Knows.grow {W' : World} (part : W.PartOf W') : (v : Value) → W.Knows v → W'.Knows v
  | .object o, known => part.objects o known
  | .array items, known => World.KnowsAll.grow part items known
  | .null, _ | .bool _, _ | .byte _, _ | .short _, _ | .char _, _ | .int _, _ | .long _, _
  | .float _, _ | .double _, _ | .str _, _ | .type _, _ | .method _, _ | .handler _, _ => trivial

theorem World.KnowsAll.grow {W' : World} (part : W.PartOf W') :
    (vs : List Value) → W.KnowsAll vs → W'.KnowsAll vs
  | [], _ => trivial
  | v :: vs, known => ⟨World.Knows.grow part v known.1, World.KnowsAll.grow part vs known.2⟩

end

namespace World

/-- With one more class. -/
def withClass (W : World) (c : LoadedClass) : World :=
  { W with classes := fun n => if n = c.id then some c else W.classes n }

/-- With one more object. -/
def withObject (W : World) (o : Object) : World :=
  { W with HasObject := fun p => p = o ∨ W.HasObject p }

/-- Code that a unit is compiled to. -/
def IsCompiled (code : Code.Class) : Prop := ∃ table unit, compileUnit table unit = .ok code

/-- The native code of the registries is harmless. -/
def HarmlessRegistries (W : World) (s : Store) : Prop :=
  ∀ id type method arity code,
    (s.registry id).native? type method arity = some code → W.HarmlessNative code

/-- The stores that a host can come to, each with the world of what there is. Classes that cannot be
linked and objects that are not made leave nothing behind. -/
inductive Hosted : World → Store → Prop
  | start {W : World} {s : Store} : (∀ n, W.classes n = none) → (∀ o, ¬ W.HasObject o) →
      s.statics = #[] → s.objects = #[] → W.HarmlessRegistries s →
      (∀ code ∈ s.handlers, W.HarmlessHandler code) → Hosted W s
  | register {W : World} {s : Store} {registries : Array Registry} : Hosted W s →
      W.HarmlessRegistries { s with registries := registries } →
      Hosted W { s with registries := registries }
  | handler {W : World} {s : Store} {code : HandlerCode} : Hosted W s → W.HarmlessHandler code →
      Hosted W (s.addHandler code).2
  | link {W : World} {s : Store} {code : Code.Class} {id depth : Nat} : Hosted W s →
      IsCompiled code →
      (∀ t ∈ code.superclass :: code.interfaces, (s.tables id).resolves t = true) →
      Hosted (W.withClass ⟨s.statics.size, code, id, depth⟩) (link code id depth s).2
  | instantiate {W : World} {s : Store} {c : LoadedClass} {k : Code.Constructor} : Hosted W s →
      W.classes c.id = some c → c.code.constructors.find? (·.params.isEmpty) = some k →
      k.visibility ≠ .hidden →
      Hosted (W.withObject ⟨s.objects.size + 1, c⟩) (c.instantiate s).2
  | invoke {W : World} {s : Store} {o : Object} {name : String} {args : List Value} : Hosted W s →
      W.HasObject o → W.KnowsAll args → Hosted W (o.invoke name args s).2
  | set {W : World} {s : Store} {c : LoadedClass} {name : String} {h : FieldHandle}
      {accessible : Bool} {o : Object} {v : Value} : Hosted W s → W.classes c.id = some c →
      c.declaredField name = .ok h → W.HasObject o → W.Knows v →
      Hosted W ((h.setAccessible accessible).set o v s).2

/-! ### Every step keeps the store furnished -/

theorem filled_default (fields : List Code.Field) :
    W.Filled fields (fields.map fun f => Value.default f.type) where
  length := List.length_map _
  known := by
    rw [knowsAll_iff]
    intro v member
    obtain ⟨f, _, rfl⟩ := List.mem_map.1 member
    exact knows_default f.type

theorem Filled.grow {W' : World} (part : W.PartOf W') {fields : List Code.Field}
    {values : List Value} (h : W.Filled fields values) : W'.Filled fields values :=
  ⟨h.length, KnowsAll.grow part values h.known⟩

theorem partOf_withClass {c : LoadedClass} (unused : W.classes c.id = none) :
    W.PartOf (W.withClass c) where
  objects := fun _ known => known
  classes := by
    intro n d known
    have other : n ≠ c.id := by
      rintro rfl
      rw [unused] at known
      cases known
    exact (if_neg other).trans known

theorem partOf_withObject (o : Object) : W.PartOf (W.withObject o) :=
  ⟨fun _ _ known => known, fun _ known => .inr known⟩

section

variable {s : Store}

/-- The next class has a number of its own. -/
theorem Furnished.unused_class (hs : W.Furnished s) : W.classes s.statics.size = none := by
  rw [Option.eq_none_iff_forall_ne_some]
  intro c known
  obtain ⟨values, stored, _⟩ := hs.statics _ c known
  rw [Array.getElem?_eq_none (Nat.le_refl _)] at stored
  cases stored

theorem Built.withClass (built : W.Built) {c : LoadedClass} (unused : W.classes c.id = none)
    (slots : c.code.WellScoped) : (W.withClass c).Built where
  numbered := by
    intro n d known
    by_cases same : n = c.id
    · cases (if_pos same).symm.trans known
      exact same.symm
    · exact built.numbered n d ((if_neg same).symm.trans known)
  slots := by
    intro n d known
    by_cases same : n = c.id
    · cases (if_pos same).symm.trans known
      exact slots
    · exact built.slots n d ((if_neg same).symm.trans known)
  instances := fun p hp => (partOf_withClass unused).classes _ _ (built.instances p hp)

theorem Built.withObject (built : W.Built) {o : Object} (hc : W.classes o.cls.id = some o.cls) :
    (W.withObject o).Built where
  numbered := built.numbered
  slots := built.slots
  instances := by
    rintro p (rfl | hp)
    · exact hc
    · exact built.instances p hp

theorem Furnished.pushStatics (hs : W.Furnished s) {c : LoadedClass}
    (number : c.id = s.statics.size) :
    (W.withClass c).Furnished { s with
      statics := s.statics.push (c.code.statics.map fun f => Value.default f.type) } := by
  have part : W.PartOf (W.withClass c) := partOf_withClass (number ▸ hs.unused_class)
  refine ⟨?_, ?_, fun p hp => part.classes _ _ (hs.instances p hp), ?_, ?_⟩
  · intro id type method arity code found W' more
    exact hs.natives id type method arity code found W' (part.trans more)
  · intro code member W' more
    exact hs.handlers code member W' (part.trans more)
  · intro p hp
    obtain ⟨values, stored, filled⟩ := hs.fields p hp
    exact ⟨values, stored, filled.grow part⟩
  · intro n d known
    dsimp only
    rw [Array.getElem?_push, ← number]
    by_cases last : n = c.id
    · cases (if_pos last).symm.trans known
      rw [if_pos last]
      exact ⟨_, rfl, filled_default _⟩
    · rw [if_neg last]
      obtain ⟨values, stored, filled⟩ := hs.statics n d ((if_neg last).symm.trans known)
      exact ⟨values, stored, filled.grow part⟩

theorem Furnished.pushFields (hs : W.Furnished s) {o : Object}
    (hc : W.classes o.cls.id = some o.cls) (number : o.id = s.objects.size + 1) :
    (W.withObject o).Furnished { s with
      objects := s.objects.push
        ⟨o.cls.id, o.cls.code.fields.map fun f => Value.default f.type⟩ } := by
  have part := W.partOf_withObject o
  refine ⟨?_, ?_, ?_, ?_, ?_⟩
  · intro id type method arity code found W' more
    exact hs.natives id type method arity code found W' (part.trans more)
  · intro code member W' more
    exact hs.handlers code member W' (part.trans more)
  · rintro p (rfl | hp)
    · exact hc
    · exact hs.instances p hp
  · rintro p (rfl | hp)
    · refine ⟨_, ?_, filled_default _⟩
      rw [number, Nat.add_sub_cancel, Array.getElem?_push, if_pos rfl]
    · obtain ⟨values, stored, filled⟩ := hs.fields p hp
      have inside := (Array.getElem?_eq_some_iff.1 stored).1
      refine ⟨values, ?_, filled.grow part⟩
      rw [Array.getElem?_push, if_neg (Nat.ne_of_lt inside)]
      exact stored
  · intro n d known
    obtain ⟨values, stored, filled⟩ := hs.statics n d known
    exact ⟨values, stored, filled.grow part⟩

/-- What there is to do for a class whose static fields have their standard values. -/
def initialized (c : LoadedClass) : Run LoadedClass := do
  initStatics (.within unlimited) c 0 c.code.statics
  return c

theorem link_unfold (code : Code.Class) (id depth : Nat) : link code id depth s =
    (match (code.superclass :: code.interfaces).find? fun t => !(s.tables id).resolves t with
      | some supertype => Run.fail (.load code.name (.unresolved supertype))
      | none => do
        set { s with
          statics :=
            s.statics.push (code.statics.map fun (f : Code.Field) => Value.default f.type) }
        initialized ⟨s.statics.size, code, id, depth⟩ : Run LoadedClass) s := rfl

theorem link_eq {code : Code.Class} {id depth : Nat}
    (resolved : ∀ t ∈ code.superclass :: code.interfaces, (s.tables id).resolves t = true) :
    link code id depth s = initialized ⟨s.statics.size, code, id, depth⟩ { s with
      statics := s.statics.push (code.statics.map fun f => Value.default f.type) } := by
  have known : (code.superclass :: code.interfaces).find? (fun t => !(s.tables id).resolves t)
      = none := by
    rw [List.find?_eq_none]
    intro t member
    rw [resolved t member]
    simp
  rw [link_unfold, known]
  rfl

theorem link_unresolved {code : Code.Class} {id depth : Nat}
    (unresolved : ¬ ∀ t ∈ code.superclass :: code.interfaces, (s.tables id).resolves t = true) :
    ∃ t, (link code id depth s).1 = .error (.failed (.load code.name (.unresolved t))) := by
  rw [link_unfold]
  cases known : (code.superclass :: code.interfaces).find? fun t => !(s.tables id).resolves t with
  | some t => exact ⟨t, rfl⟩
  | none =>
    refine absurd (fun t member => ?_) unresolved
    simpa using List.find?_eq_none.1 known t member

/-- A class that is linked is in the world from then on, whether or not its initial values fail. -/
theorem link_safe (built : W.Built) (hs : W.Furnished s) {code : Code.Class} {id depth : Nat}
    (slots : code.WellScoped)
    (resolved : ∀ t ∈ code.superclass :: code.interfaces, (s.tables id).resolves t = true) :
    let W' := W.withClass ⟨s.statics.size, code, id, depth⟩
    W'.Built ∧ W'.Furnished (link code id depth s).2 ∧
      ∀ stop, (link code id depth s).1 = .error stop → W'.Tolerates stop := by
  have built' := built.withClass (c := ⟨s.statics.size, code, id, depth⟩) hs.unused_class slots
  have pushed := hs.pushStatics (c := ⟨s.statics.size, code, id, depth⟩) rfl
  have ran := initStatics_safe built' (within_safe built' unlimited) (if_pos rfl) []
    code.statics rfl
  have started : Run.Safe _ (initialized ⟨s.statics.size, code, id, depth⟩) fun _ => True :=
    ran.bind fun _ _ => .pure trivial
  rw [link_eq resolved]
  exact ⟨built', (started _ pushed).1, fun stop stopped => started.stop pushed stopped⟩

/-- What there is to do for an object whose fields have their standard values. -/
def finish (c : LoadedClass) (k : Code.Constructor) (o : Object) : Run Object := do
  initFields (.within unlimited) o 0 c.code.fields
  let _ ← Run.nested c.maxCallDepth (runBody (.within unlimited) ⟨some o, c⟩ k.locals [] k.body)
  return o

theorem instantiate_none {c : LoadedClass}
    (found : c.code.constructors.find? (·.params.isEmpty) = none) : (c.instantiate s).1
      = .error (.failed (.construction c.code.name
        (.noSuchMethod c.code.name Failure.constructorName 0))) := by
  unfold LoadedClass.instantiate instantiateWith construct
  rw [found]
  rfl

theorem instantiate_hidden {c : LoadedClass} {k : Code.Constructor}
    (found : c.code.constructors.find? (·.params.isEmpty) = some k)
    (hidden : k.visibility = .hidden) : (c.instantiate s).1
      = .error (.failed (.construction c.code.name
        (.illegalAccess c.code.name Failure.constructorName))) := by
  unfold LoadedClass.instantiate instantiateWith construct
  rw [found]
  dsimp only
  rw [if_pos hidden]
  rfl

theorem instantiate_eq {c : LoadedClass} {k : Code.Constructor}
    (found : c.code.constructors.find? (·.params.isEmpty) = some k)
    (isOpen : k.visibility ≠ .hidden) : c.instantiate s
      = (finish c k ⟨s.objects.size + 1, c⟩).mapFailure (.construction c.code.name) { s with
        objects := s.objects.push ⟨c.id, c.code.fields.map fun f => Value.default f.type⟩ } := by
  unfold LoadedClass.instantiate instantiateWith construct
  rw [found]
  dsimp only
  rw [if_neg isOpen]
  rfl

/-- An object that is made is in the world from then on, whether or not its construction fails. -/
theorem instantiate_safe (built : W.Built) (hs : W.Furnished s) {c : LoadedClass}
    (hc : W.classes c.id = some c) {k : Code.Constructor}
    (found : c.code.constructors.find? (·.params.isEmpty) = some k)
    (isOpen : k.visibility ≠ .hidden) :
    let W' := W.withObject ⟨s.objects.size + 1, c⟩
    W'.Built ∧ W'.Furnished (c.instantiate s).2 ∧
      ∀ stop, (c.instantiate s).1 = .error stop → W'.Tolerates stop := by
  have built' := built.withObject (o := ⟨s.objects.size + 1, c⟩) hc
  have pushed := hs.pushFields (o := ⟨s.objects.size + 1, c⟩) hc rfl
  have ho : (W.withObject ⟨s.objects.size + 1, c⟩).HasObject ⟨s.objects.size + 1, c⟩ := .inl rfl
  have safe := within_safe built' unlimited
  have member := List.mem_of_find?_eq_some found
  have noParams : k.params = [] := by simpa using List.find?_some found
  have noArgs : (W.withObject ⟨s.objects.size + 1, c⟩).KnowsAll [] := trivial
  have constructed := runBody_safe safe ho hc ((built.slots _ _ hc).constructors k member)
    (fun name called => .inr (.inl ⟨k, member, called⟩)) noArgs (by rw [noParams]; rfl)
  have finished : Run.Safe (W.withObject ⟨s.objects.size + 1, c⟩)
      (finish c k ⟨s.objects.size + 1, c⟩) fun _ => True := by
    refine .bind (initFields_safe built' safe ho [] c.code.fields rfl) fun _ _ => ?_
    refine .bind (P := fun _ => True) (.nested (constructed.mono fun _ _ => trivial) ?_ ?_)
      fun _ _ => .pure trivial
    · exact fun s n hs => hs.congr rfl rfl rfl rfl
    · exact ⟨trivial, nofun, nofun⟩
  have started := Run.Ensures.mapFailure (.construction c.code.name) finished
    fun f blameless => ⟨blameless.known, blameless.slot, blameless.this⟩
  rw [instantiate_eq found isOpen]
  exact ⟨built', (started _ pushed).1, fun stop stopped => started.stop pushed stopped⟩

end

/-- Every step of a host keeps the store furnished. -/
theorem Hosted.furnished {s : Store} (hosted : Hosted W s) : W.Built ∧ W.Furnished s := by
  induction hosted with
  | @start W' s' noClasses noObjects statics objects natives handlers =>
    have noClass : ∀ n c, W'.classes n ≠ some c := fun n c known =>
      nomatch (noClasses n).symm.trans known
    exact ⟨⟨fun n c known => (noClass n c known).elim, fun n c known => (noClass n c known).elim,
      fun o ho => (noObjects o ho).elim⟩, natives, handlers, fun o ho => (noObjects o ho).elim,
      fun o ho => (noObjects o ho).elim, fun n c known => (noClass n c known).elim⟩
  | register _ natives ih =>
    exact ⟨ih.1, natives, ih.2.handlers, ih.2.instances, ih.2.fields, ih.2.statics⟩
  | handler _ harmless ih =>
    refine ⟨ih.1, ih.2.natives, ?_, ih.2.instances, ih.2.fields, ih.2.statics⟩
    intro code member
    rcases Array.mem_push.1 member with member | rfl
    · exact ih.2.handlers code member
    · exact harmless
  | link _ compiled resolved ih =>
    obtain ⟨table, unit, compiled⟩ := compiled
    have slots := (Check.classNumbered compiled).wellScoped
    obtain ⟨built, furnished, _⟩ := link_safe ih.1 ih.2 slots resolved
    exact ⟨built, furnished⟩
  | instantiate _ hc found isOpen ih =>
    obtain ⟨built, furnished, _⟩ := instantiate_safe ih.1 ih.2 hc found isOpen
    exact ⟨built, furnished⟩
  | invoke _ ho hargs ih => exact ⟨ih.1, (invoke_safe ih.1 (.object _) _ _ ho hargs nofun _ ih.2).1⟩
  | set _ hc handle ho hv ih => exact ⟨ih.1, (FieldHandle.set_safe hc handle _ ho hv _ ih.2).1⟩

end World

end Classwright

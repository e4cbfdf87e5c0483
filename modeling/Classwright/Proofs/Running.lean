import Classwright.Proofs.Members

/-!
# Calls, linking and instantiation keep the store typed

What calls rely on holds of the calls themselves, by induction on the rounds that are left; so it
holds of every run that a host can start.
-/

namespace Classwright

open Check

variable {W : World}

theorem callMethod_keeps (valid : W.Valid) (serving : W.Serving) {calls : Calls}
    (sound : calls.Sound W) {o : Object} (ho : W.HasObject o) {m : Code.Method}
    (hm : m ∈ o.cls.code.methods) {args : List Value} (fit : W.Fit m.params args) :
    Run.Keeps W (callMethod calls o m args) (fun v => W.Knows v ∧
      (if m.returnType.isVoid then StaticType.null else .of m.returnType).Holds W.tables v) := by
  have hc := valid.instances o ho
  have hframe : W.FrameOf o.cls.id ⟨some o, o.cls⟩ := by
    refine ⟨hc, ?_⟩
    rintro _ ⟨⟩
    exact ⟨ho, rfl⟩
  have runs := World.method_runsBody valid serving hc hm calls _ args sound hframe fit
  refine .nested (runs.bind fun flow ended => ?_)
  cases flow with
  | normal =>
    have void : m.returnType = .void := ended
    refine .pure ⟨trivial, ?_⟩
    rw [void]
    rfl
  | returned v =>
    dsimp only
    split
    · exact .pure ⟨trivial, rfl⟩
    · exact (Run.Keeps.coerce ended).mono fun w hw => ⟨hw.1, hw.2.1⟩

/-- A call on an object gives what the method declares that its arguments choose. -/
theorem invokeObject_keeps (valid : W.Valid) (serving : W.Serving) {calls : Calls}
    (sound : calls.Sound W) {o : Object} (ho : W.HasObject o) {name : String}
    {args : List Value} (hargs : W.KnowsAll args) :
    Run.Keeps W (invokeObject calls o name args) (fun v => W.Knows v ∧
      ∃ choice, W.choice? o.cls name args = some choice ∧ choice.type.Holds W.tables v) := by
  refine .tables (.bind (P := fun found => o.cls.findMethod W.tables name args = .ok found)
    (.ofExcept (fun _ found => found) ?_) fun found chosen => ?_)
  · intro f refused
    unfold LoadedClass.findMethod at refused
    split at refused
    · cases refused
    · split at refused
      · cases refused
      · cases refused
        trivial
  · cases found with
    | none =>
      refine (invokeInherited_keeps valid sound ho hargs).mono fun v hv => ?_
      rw [World.choice?, chosen]
      exact hv
    | some found =>
      obtain ⟨m, taken⟩ := found
      obtain ⟨hm, _, _, made⟩ := LoadedClass.findMethod_some chosen
      have fit := World.fit_of_coerceAll hargs made
      refine (callMethod_keeps valid serving sound ho hm fit).mono fun v hv => ?_
      rw [World.choice?, chosen]
      exact ⟨hv.1, _, rfl, hv.2⟩

theorem builtin_keeps {receiver : Value} {name : String} {args : List Value}
    (notObject : ∀ o, receiver ≠ .object o) (notNull : receiver ≠ .null) :
    Run.Keeps W (match Builtin.ofValue receiver name args with
      | some result => Run.ofExcept result
      | none => Run.fail (.noSuchMethod receiver.kindName name args.length))
      (fun v => W.Knows v ∧ W.Answers receiver name args v) := by
  cases made : Builtin.ofValue receiver name args with
  | none => exact .fail trivial
  | some result =>
    refine .ofExcept ?_ ?_
    · rintro v rfl
      exact World.answers_of_ofValue notObject notNull made
    · rintro f rfl
      exact World.knowsFailure_of_ofValue made

/-- A call on any value gives what it may. -/
theorem invokeValue_sound (valid : W.Valid) (serving : W.Serving) {calls : Calls}
    (sound : calls.Sound W) : Invoke.Sound W (invokeValue calls) := by
  intro receiver name args hr hargs
  unfold invokeValue
  cases receiver with
  | null => exact .fail trivial
  | object o => exact invokeObject_keeps valid serving sound hr hargs
  | handler id =>
    dsimp only
    split
    · refine (invokeHandler_keeps valid sound hargs.2.2).mono fun v hv => ⟨hv, ?_⟩
      refine World.answers_of_find? (by simp) (by simp) ?_
      rintro b (found | found)
      · cases found
        exact Value.isInstanceOf_object v
      · cases found
    · exact .fail trivial
    · exact builtin_keeps (by simp) (by simp)
  | _ => exact builtin_keeps (by simp) (by simp)

/-! ### Initial values -/

theorem evalInitializer_keeps {n : Nat} {f : Code.Field} (typed : W.FieldTyped n f) {calls : Calls}
    (sound : calls.Sound W) {frame : Frame} (hframe : W.FrameOf n frame)
    {init : Code.Expr} (given : f.init = some init) :
    Run.Keeps W (evalInitializer calls frame f.type init)
      (fun v => W.Knows v ∧ v.isInstanceOf W.tables f.type = true) := by
  have start : W.Holding [] [] := ⟨by simp, by simp⟩
  have evaluated := typed.init init given calls frame sound hframe [] start
  refine .bind (P := fun v => W.Knows v) (.map (evaluated.mono fun r hr => hr.2.1)) fun v hv => ?_
  refine (Run.Keeps.coerce hv).mono fun w hw => ⟨hw.1, ?_⟩
  exact (StaticType.holds_of_iff typed.novoid).1 hw.2.1

theorem initStatics_keeps (valid : W.Valid) {calls : Calls} (sound : calls.Sound W)
    {n : Nat} {c : LoadedClass} (hc : W.classes n = some c) (done rest : List Code.Field)
    (all : c.code.statics = done ++ rest) (typed : ∀ f ∈ rest, W.FieldTyped n f) :
    Run.Keeps W (initStatics calls c done.length rest) (fun _ => True) := by
  induction rest generalizing done with
  | nil => exact .pure trivial
  | cons f rest ih =>
    have next := ih (done ++ [f]) (by rw [all, List.append_assoc, List.singleton_append])
      (fun g hg => typed g (List.mem_cons_of_mem _ hg))
    rw [List.length_append, List.length_singleton] at next
    rw [initStatics]
    cases given : f.init with
    | none => exact next
    | some init =>
      have own : W.classes c.id = some c := by
        rw [(valid.compiled n c hc).1]
        exact hc
      have hframe : W.FrameOf n ⟨none, c⟩ := ⟨hc, by simp⟩
      have evaluated := Run.Keeps.mapFailure (.staticInitializer c.code.name f.name)
        (evalInitializer_keeps (typed f List.mem_cons_self) sound hframe given)
        fun _ known => known
      refine evaluated.bind fun v hv => .bind (.writeStatic own hv.1 fun t at_ => ?_)
        fun _ _ => next
      rw [all, World.fieldTypes, List.getElem?_map, List.getElem?_append_right (Nat.le_refl _),
        Nat.sub_self] at at_
      cases at_
      exact hv.2

theorem initFields_keeps (valid : W.Valid) {calls : Calls} (sound : calls.Sound W) {n : Nat}
    {o : Object} (ho : W.HasObject o) (hc : W.classes n = some o.cls) (done rest : List Code.Field)
    (all : o.cls.code.fields = done ++ rest) (typed : ∀ f ∈ rest, W.FieldTyped n f) :
    Run.Keeps W (initFields calls o done.length rest) (fun _ => True) := by
  induction rest generalizing done with
  | nil => exact .pure trivial
  | cons f rest ih =>
    have next := ih (done ++ [f]) (by rw [all, List.append_assoc, List.singleton_append])
      (fun g hg => typed g (List.mem_cons_of_mem _ hg))
    rw [List.length_append, List.length_singleton] at next
    rw [initFields]
    cases given : f.init with
    | none => exact next
    | some init =>
      have hframe : W.FrameOf n ⟨some o, o.cls⟩ := by
        refine ⟨hc, ?_⟩
        rintro _ ⟨⟩
        exact ⟨ho, rfl⟩
      have evaluated := evalInitializer_keeps (typed f List.mem_cons_self) sound hframe given
      refine evaluated.bind fun v hv => .bind (.writeField (valid.instances o ho) hv.1
        fun t at_ => ?_) fun _ _ => next
      rw [all, World.fieldTypes, List.getElem?_map, List.getElem?_append_right (Nat.le_refl _),
        Nat.sub_self] at at_
      cases at_
      exact hv.2

theorem World.knows_default (t : TypeRef) : W.Knows (Value.default t) := by
  cases t with
  | primitive kind => cases kind <;> trivial
  | _ => trivial

/-- The standard values of fields are of the types of the fields. -/
theorem World.fit_default {fields : List Code.Field} (novoid : ∀ f ∈ fields, f.type ≠ .void) :
    W.Fit (World.fieldTypes fields) (fields.map fun f => Value.default f.type) := by
  induction fields with
  | nil => exact .nil
  | cons f fields ih =>
    refine .cons ⟨Value.isInstanceOf_default (novoid f List.mem_cons_self), ?_⟩
      (ih fun g hg => novoid g (List.mem_cons_of_mem _ hg))
    exact knows_default f.type

/-- A class that is linked starts with standard values in its static fields. -/
theorem World.Conforms.push_statics {s : Store} (hs : W.Conforms s) {c : LoadedClass}
    (hc : W.classes s.statics.size = some c) (novoid : ∀ f ∈ c.code.statics, f.type ≠ .void) :
    W.Conforms { s with
      statics := s.statics.push (c.code.statics.map fun f => Value.default f.type) } where
  registries := hs.registries
  handlers := hs.handlers
  fields := hs.fields
  statics := by
    intro n d values hd stored
    rw [Array.getElem?_push] at stored
    split at stored
    · rename_i last
      subst last
      rw [hc] at hd
      cases hd
      cases stored
      exact fit_default novoid
    · exact hs.statics n d values hd stored

/-- An object that is made starts with standard values in its fields. -/
theorem World.Conforms.push_fields {s : Store} (hs : W.Conforms s) {c : LoadedClass}
    (hc : W.classes c.id = some c) (novoid : ∀ f ∈ c.code.fields, f.type ≠ .void) :
    W.Conforms { s with
      objects := s.objects.push ⟨c.id, c.code.fields.map fun f => Value.default f.type⟩ } where
  registries := hs.registries
  handlers := hs.handlers
  statics := hs.statics
  fields := by
    intro stored member
    rcases Array.mem_push.1 member with member | rfl
    · exact hs.fields stored member
    · exact ⟨c, hc, fit_default novoid⟩

/-! ### Linking -/

theorem linkWith_apply (calls : Calls) (code : Code.Class) (id depth : Nat) (s : Store) :
    linkWith calls code id depth s =
      (match (code.superclass :: code.interfaces).find? fun t => !(s.tables id).resolves t with
        | some supertype => Run.fail (.load code.name (.unresolved supertype))
        | none => do
          set { s with
            statics := s.statics.push
              (code.statics.map fun (f : Code.Field) => Value.default f.type) }
          initStatics calls ⟨s.statics.size, code, id, depth⟩ 0 code.statics
          return ⟨s.statics.size, code, id, depth⟩ : Run LoadedClass) s :=
  rfl

/-- A class whose supertypes are known gets standard values, and then its initial ones. -/
theorem linkWith_eq (calls : Calls) {code : Code.Class} {id depth : Nat} {s : Store}
    (resolved : ∀ t ∈ code.superclass :: code.interfaces, (s.tables id).resolves t = true) :
    linkWith calls code id depth s = (do
        initStatics calls ⟨s.statics.size, code, id, depth⟩ 0 code.statics
        return ⟨s.statics.size, code, id, depth⟩ : Run LoadedClass) { s with
      statics := s.statics.push (code.statics.map fun f => Value.default f.type) } := by
  have known : (code.superclass :: code.interfaces).find? (fun t => !(s.tables id).resolves t)
      = none := by
    rw [List.find?_eq_none]
    intro t member
    rw [resolved t member]
    simp
  rw [linkWith_apply, known]
  rfl

/-- Linking keeps the store typed if the class is the one that its number stands for. -/
theorem linkWith_conforms (valid : W.Valid) (serving : W.Serving) {calls : Calls}
    (sound : calls.Sound W) {code : Code.Class} {depth : Nat} {s : Store}
    (hs : W.Conforms s)
    (loaded : (∀ t ∈ code.superclass :: code.interfaces, W.table.resolves t = true) →
      W.classes s.statics.size = some ⟨s.statics.size, code, W.path, depth⟩) :
    W.Conforms (linkWith calls code W.path depth s).2 := by
  rw [linkWith_apply]
  cases known : (code.superclass :: code.interfaces).find? fun t =>
      !(s.tables W.path).resolves t with
  | some supertype => exact hs
  | none =>
    have hc := loaded fun t member => by
      have := List.find?_eq_none.1 known t member
      rw [hs.tables] at this
      show (W.tables W.path).resolves t = true
      simpa using this
    have typed : ∀ f ∈ code.statics, W.FieldTyped s.statics.size f := fun f hf =>
      World.fieldTyped valid serving hc (.inr hf)
    have pushed := hs.push_statics hc fun f hf => (typed f hf).novoid
    have started : Run.Keeps W (do
        initStatics calls ⟨s.statics.size, code, W.path, depth⟩ 0 code.statics
        return (⟨s.statics.size, code, W.path, depth⟩ : LoadedClass)) (fun _ => True) :=
      .bind (initStatics_keeps valid sound hc [] code.statics rfl typed) fun _ _ => .pure trivial
    exact (started _ pushed).1

/-! ### Instantiation -/

theorem allocate_keeps (valid : W.Valid) {c : LoadedClass} (hc : W.classes c.id = some c)
    (novoid : ∀ f ∈ c.code.fields, f.type ≠ .void) :
    Run.Keeps W (allocate c) fun o => o.cls = c ∧ W.HasObject o := by
  intro s hs
  refine ⟨hs.push_fields hc novoid, rfl, ?_⟩
  exact valid.objects _ hc

/-- Objects of the classes may be made at any time. -/
theorem construct_keeps (valid : W.Valid) (serving : W.Serving) {calls : Calls}
    (sound : calls.Sound W) {c : LoadedClass} (hc : W.classes c.id = some c) :
    Run.Keeps W (construct calls c) fun o => o.cls = c := by
  unfold construct
  cases found : c.code.constructors.find? (·.params.isEmpty) with
  | none => exact .fail trivial
  | some k =>
    dsimp only
    split
    · exact .fail trivial
    · have typed : ∀ f ∈ c.code.fields, W.FieldTyped c.id f := fun f hf =>
        World.fieldTyped valid serving hc (.inl hf)
      refine .bind (allocate_keeps valid hc fun f hf => (typed f hf).novoid) ?_
      rintro o ⟨rfl, ho⟩
      have hframe : W.FrameOf o.cls.id ⟨some o, o.cls⟩ := by
        refine ⟨hc, ?_⟩
        rintro _ ⟨⟩
        exact ⟨ho, rfl⟩
      have noParams : k.params = [] := by simpa using List.find?_some found
      have runs := World.constructor_runsBody valid serving hc (List.mem_of_find?_eq_some found)
      rw [noParams] at runs
      refine .bind (initFields_keeps valid sound ho hc [] o.cls.code.fields rfl typed) fun _ _ => ?_
      refine .bind (.nested (P := fun _ => True) ?_) fun _ _ => .pure rfl
      exact (runs calls _ [] sound hframe .nil).mono fun _ _ => trivial

theorem instantiateWith_keeps (valid : W.Valid) (serving : W.Serving) {calls : Calls}
    (sound : calls.Sound W) {c : LoadedClass} (hc : W.classes c.id = some c) :
    Run.Keeps W (instantiateWith calls c) fun o => o.cls = c :=
  .mapFailure _ (construct_keeps valid serving sound hc) fun _ known => known

/-! ### Rounds -/

/-- What calls rely on holds of the calls of every run. -/
theorem within_sound (valid : W.Valid) (serving : W.Serving) (rounds : Nat) :
    (Calls.within rounds).Sound W := by
  induction rounds with
  | zero => exact ⟨fun _ _ _ _ _ => .exhausted, fun _ _ => .exhausted⟩
  | succ rounds ih =>
    exact ⟨invokeValue_sound valid serving ih,
      fun _ hc => instantiateWith_keeps valid serving ih hc⟩

theorem invoke_sound (valid : W.Valid) (serving : W.Serving) : Invoke.Sound W invoke :=
  invokeValue_sound valid serving (within_sound valid serving unlimited)

theorem instantiate_keeps (valid : W.Valid) (serving : W.Serving) {c : LoadedClass}
    (hc : W.classes c.id = some c) : Run.Keeps W c.instantiate fun o => o.cls = c :=
  instantiateWith_keeps valid serving (within_sound valid serving unlimited) hc

end Classwright

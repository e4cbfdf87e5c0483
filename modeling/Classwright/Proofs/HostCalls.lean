import Classwright.Proofs.Dispatch

/-!
# Calls of host code

Honest host code keeps the store typed, however often it calls back, makes objects and uses their
fields, and what is found above a class gives what it declares.
-/

namespace Classwright

open Check

variable {W : World}

theorem World.HonestHandler.of_conforms {s : Store} (hs : W.Conforms s) {id : Nat}
    {code : HandlerCode} (found : s.handlers[id]? = some code) :
    W.HonestHandler World.anything code :=
  hs.handlers code (Array.mem_of_getElem? found)

/-! ### Fields from outside -/

/-- A handle that may write converts the value to the type of its field first. -/
theorem FieldHandle.set_apply {h : FieldHandle} {o : Object} {s : Store} (v : Value)
    (checked : h.check o true = pure ()) :
    h.set o v s = (match v.coerceTo s.tables h.info.type with
      | some v => Run.writeField o h.slot v
      | none => Run.fail (.illegalArgument
          (.unsettable h.info.type h.cls.code.name h.info.name v.kindName)) : Run Unit) s := by
  rw [set, checked]
  rfl

/-- A handle has a slot of its class, with the type that the class declares. -/
theorem LoadedClass.declaredField_ok {c : LoadedClass} {name : String} {h : FieldHandle}
    (handle : c.declaredField name = .ok h) :
    h.cls = c ∧ c.code.fields[h.slot]? = some h.info := by
  unfold LoadedClass.declaredField at handle
  split at handle
  · cases handle
  · split at handle
    · cases handle
    · rename_i at_
      cases handle
      exact ⟨rfl, at_⟩

theorem LoadedClass.declaredField_error {c : LoadedClass} {name : String} {f : Failure}
    (refused : c.declaredField name = .error f) : ∃ cls field, f = .noSuchField cls field := by
  unfold LoadedClass.declaredField at refused
  split at refused
  · cases refused
    exact ⟨_, _, rfl⟩
  · split at refused
    · cases refused
      exact ⟨_, _, rfl⟩
    · cases refused

theorem declaredField_keeps (c : LoadedClass) (name : String) :
    Run.Keeps W (Run.ofExcept (c.declaredField name)) fun h => c.declaredField name = .ok h := by
  refine .ofExcept (fun _ made => made) fun f refused => ?_
  obtain ⟨_, _, rfl⟩ := LoadedClass.declaredField_error refused
  trivial

section

variable (linked : W.Linked) {c : LoadedClass} (hc : W.classes c.id = some c) {o : Object}
  (ho : W.HasObject o)

include linked hc ho

/-- A handle is used on objects of its class only. -/
theorem FieldHandle.check_keeps (h : FieldHandle) (own : h.cls = c) (writing : Bool) :
    Run.Keeps W (h.check o writing) fun _ => o.cls = c := by
  unfold FieldHandle.check
  split
  · exact .fail trivial
  · rename_i same
    have same : o.cls.id = c.id := by simpa [own] using same
    have numbered := linked.instances o ho
    rw [same, hc, Option.some.injEq] at numbered
    split
    · exact .pure numbered.symm
    · exact .fail trivial

theorem FieldHandle.get_keeps {name : String} {h : FieldHandle}
    (handle : c.declaredField name = .ok h) (accessible : Bool) :
    Run.Keeps W ((h.setAccessible accessible).get o) W.Knows := by
  obtain ⟨own, _⟩ := LoadedClass.declaredField_ok handle
  refine .bind (check_keeps linked hc ho (h.setAccessible accessible) own false) fun _ _ => ?_
  exact (Run.Keeps.readField (linked.instances o ho)).mono fun _ read => read.1

/-- A field is written only with a value of its type. -/
theorem FieldHandle.set_keeps {name : String} {h : FieldHandle}
    (handle : c.declaredField name = .ok h) (accessible : Bool) {v : Value} (hv : W.Knows v) :
    Run.Keeps W ((h.setAccessible accessible).set o v) fun _ => True := by
  obtain ⟨own, at_⟩ := LoadedClass.declaredField_ok handle
  refine .bind (check_keeps linked hc ho (h.setAccessible accessible) own true)
    fun _ same => .tables ?_
  cases made : v.coerceTo W.tables (h.setAccessible accessible).info.type with
  | none => exact .fail trivial
  | some w =>
    refine .writeField (linked.instances o ho) (World.knows_of_coerceTo hv made)
      fun t typed => ?_
    rw [same, World.fieldTypes, List.getElem?_map] at typed
    obtain ⟨info, there, rfl⟩ := Option.map_eq_some_iff.1 typed
    obtain rfl : h.info = info := Option.some.inj (at_.symm.trans there)
    exact Value.isInstanceOf_of_coerceTo made

end

/-! ### Host code -/

/-- What host code asks for keeps the store typed. -/
theorem HostRequest.run_keeps (valid : W.Valid) {calls : Calls} (sound : calls.Sound W)
    {request : HostRequest} (known : W.KnowsRequest request) :
    Run.Keeps W (request.run calls) W.Knows := by
  cases request with
  | invoke o method args =>
    exact (sound.invoke (.object o) method args known.1 known.2).mono fun _ ended => ended.1
  | instantiate c =>
    refine .bind (sound.instantiate c known) fun o made => .pure ?_
    exact valid.objects o (made ▸ known)
  | getField c field accessible o =>
    refine (declaredField_keeps c field).bind fun h handle => ?_
    exact FieldHandle.get_keeps valid.toLinked known.1 known.2 handle accessible
  | setField c field accessible o v =>
    refine (declaredField_keeps c field).bind fun h handle => ?_
    obtain ⟨hc, ho, hv⟩ := known
    refine .bind (FieldHandle.set_keeps valid.toLinked hc ho handle accessible hv) ?_
    exact fun _ _ => .pure trivial

/-- Honest host code keeps the store typed and answers as it may. -/
theorem Foreign.run_keeps (valid : W.Valid) {calls : Calls} (sound : calls.Sound W)
    {Asks : HostRequest → Prop} {Answers : Value → Prop} {code : Foreign}
    (honest : W.Honest Asks Answers code) :
    Run.Keeps W (code.run calls) (fun v => W.Knows v ∧ Answers v) := by
  induction honest with
  | answer known allowed => exact .pure ⟨known, allowed⟩
  | fail known => exact .fail known
  | ask known _ _ ih =>
    refine .bind (HostRequest.run_keeps valid sound known).outcome fun r ended => ih r ?_
    cases r <;> exact ended
  | update _ ih =>
    intro s hs
    exact ih _ _ (hs.congr rfl rfl rfl rfl)

/-- A call of a handler may give anything that exists. -/
theorem invokeHandler_keeps (valid : W.Valid) {calls : Calls} (sound : calls.Sound W) {id : Nat}
    {interface : Descriptor} {m : Method} {args : List Value} (hargs : W.KnowsAll args) :
    Run.Keeps W (invokeHandler calls id interface m args) (fun v => W.Knows v) := by
  refine .bind (.modify fun s hs => hs.congr rfl rfl rfl rfl) fun _ _ => .get fun s hs => ?_
  cases found : s.handlers[id]? with
  | none => exact .pure trivial
  | some code =>
    have honest := World.HonestHandler.of_conforms hs found
    exact (Foreign.run_keeps valid sound (honest interface m args hargs)).mono fun v hv => hv.1

theorem textOf_keeps {call : Invoke} (sound : Invoke.Sound W call) {v : Value} (hv : W.Knows v) :
    Run.Keeps W (textOf call v) (fun _ => True) := by
  cases v with
  | object o =>
    refine .bind (sound (.object o) "toString" [] hv trivial) fun w _ => ?_
    cases w <;> exact .pure trivial
  | _ => exact .pure trivial

/-- The arguments of native code exist, and a declared method has taken them if there is one. -/
theorem nativeArguments_ok {d : Descriptor} {name : String} {args taken : List Value}
    (known : W.KnowsAll args) (made : nativeArguments W.tables d name args = .ok taken) :
    W.KnowsAll taken ∧
      (d.findMethods name args.length = [] ∨ ∃ m, d.taking W.tables name args = some m) := by
  unfold nativeArguments at made
  split at made
  · rename_i none_
    cases made
    exact ⟨known, .inl none_⟩
  · rename_i first others some_
    split at made
    · rename_i taken' found
      cases made
      obtain ⟨m, member, accepted⟩ := List.exists_of_findSome?_eq_some found
      refine ⟨(World.fit_of_coerceAll known accepted).known, .inr ?_⟩
      have : (d.taking W.tables name args).isSome = true := by
        rw [Descriptor.taking, some_, List.find?_isSome]
        exact ⟨m, member, by rw [accepted]; rfl⟩
      exact Option.isSome_iff_exists.1 this
    · cases made

/-- A method that is found above an object's class gives what it declares. -/
theorem invokeInherited_keeps (valid : W.Valid) {calls : Calls} (sound : calls.Sound W)
    {o : Object} (ho : W.HasObject o) {name : String} {args : List Value}
    (hargs : W.KnowsAll args) :
    Run.Keeps W (invokeInherited calls o name args) (fun v => W.Knows v ∧
      ∃ choice, W.choiceAbove? o.cls name args = some choice ∧
        choice.type.Holds W.tables v) := by
  refine .get fun s hs => ?_
  have hpath : o.cls.registry = W.path := (valid.compiled _ _ (valid.instances o ho)).2.1
  have same : s.inheritedNative? o.cls name args.length
      = W.store.inheritedNative? o.cls name args.length :=
    World.inheritedNative?_of_registries hs.registries _ _ _
  rw [same]
  cases found : W.store.inheritedNative? o.cls name args.length with
  | none =>
    cases made : Builtin.ofObject o name args with
    | none =>
      refine .fail ?_
      split <;> trivial
    | some v =>
      obtain ⟨known, b, offered, holds⟩ := World.holds_of_ofObject (W := W) made
      refine .pure ⟨known, .builtin b, ?_, holds⟩
      rw [World.choiceAbove?, found, offered]
      rfl
  | some native =>
    obtain ⟨host, code⟩ := native
    obtain ⟨host', member, here⟩ := List.exists_of_findSome?_eq_some found
    obtain ⟨code', native_, pair⟩ := Option.map_eq_some_iff.1 here
    cases pair
    rw [hpath] at native_
    have declared : host ∈ W.table.types := by
      have := TypeTable.mem_types_of_mem_lineage member
      rw [hpath] at this
      exact this
    rw [hs.tables]
    refine .bind (P := fun taken => nativeArguments W.tables host name args = .ok taken)
      (.ofExcept (fun _ made => made) ?_) fun taken made => ?_
    · intro f made
      unfold nativeArguments at made
      split at made
      · cases made
      · split at made
        · cases made
        · cases made
          trivial
    · obtain ⟨knownTaken, which⟩ := nativeArguments_ok hargs made
      have honest := valid.natives host declared name args.length code native_ o args taken rfl ho
        knownTaken made
      refine (Foreign.run_keeps valid sound honest).mono fun v hv => ⟨hv.1, ?_⟩
      rcases which with undeclared | ⟨m, taking⟩
      · refine ⟨.native host none, ?_, Value.isInstanceOf_object v⟩
        rw [World.choiceAbove?, found]
        simp [undeclared]
      · refine ⟨.native host (some m), ?_, hv.2 m taking⟩
        rw [World.choiceAbove?, found]
        have some_ : host.findMethods name args.length ≠ [] := by
          intro none_
          simp [Descriptor.taking, none_] at taking
        simp [some_, taking]

end Classwright

import Classwright.Proofs.Recovering

/-!
# The fields of a new proxy

A proxy is made in three steps: its class is resolved, an instance of it is made, and the fields of
the instance are filled one after the other. Where that succeeds, the proxy is a new object, and its
fields hold the handler, the interface and the descriptors of all methods.
-/

namespace Classwright

open Check Generation

/-! ### Writing fields -/

section

variable {o : Object} {before : List Code.Field} {s : Store} {values : List Value}

/-- The field of a name that no field before it has. -/
theorem declaredField_eq {c : LoadedClass} {rest : List Code.Field} {f : Code.Field}
    (fields : c.code.fields = before ++ f :: rest) (new : ∀ g ∈ before, g.name ≠ f.name) :
    c.declaredField f.name = .ok { cls := c, slot := before.length, info := f } := by
  have unused : before.findIdx? (·.name == f.name) = none := by
    rw [List.findIdx?_eq_none_iff]
    intro g member
    simpa using new g member
  have found : c.code.fields.findIdx? (·.name == f.name) = some before.length := by
    rw [fields, List.findIdx?_append, unused, List.findIdx?_cons]
    simp
  have there : c.code.fields[before.length]? = some f := by simp [fields]
  unfold LoadedClass.declaredField
  rw [found]
  dsimp only
  rw [there]

/-- A value of the type of a field is written to the field as it is. -/
theorem patchField_eq {rest : List Code.Field} {f : Code.Field} {v : Value}
    (fields : o.cls.code.fields = before ++ f :: rest) (new : ∀ g ∈ before, g.name ≠ f.name)
    (fits : ∀ tables, v.coerceTo tables f.type = some v)
    (stored : s.objects[o.id - 1]? = some ⟨o.cls.id, values⟩)
    (inside : before.length < values.length) :
    patchField o f.name v s = (.ok (), s.setFields o (values.set before.length v)) := by
  have handle := declaredField_eq fields new
  have held := Store.fields_stored stored
  have written : Run.writeField o before.length v s
      = (.ok (), s.setFields o (values.set before.length v)) := by
    change (if before.length < (s.fields o).length then
        (modify (·.setFields o ((s.fields o).set before.length v)) : Run Unit)
      else Run.fail _) s = _
    rw [held, if_pos inside]
    rfl
  let granted : FieldHandle := { cls := o.cls, slot := before.length, info := f, accessible := true }
  have given : granted.set o v s = (.ok (), s.setFields o (values.set before.length v)) := by
    have checked : granted.check o true = (pure () : Run Unit) := by
      simp [granted, FieldHandle.check]
    rw [FieldHandle.set_apply v checked, fits s.tables]
    exact written
  unfold patchField
  rw [handle]
  change (Except.mapError _ (granted.set o v s).1, (granted.set o v s).2) = _
  rw [given]
  rfl

/-- Fields of the right types are filled one after the other. -/
theorem patchAll_eq {fs : List (Code.Field × Value)}
    (fields : o.cls.code.fields = before ++ fs.map (·.1))
    (distinct : (o.cls.code.fields.map (·.name)).Nodup)
    (fits : ∀ p ∈ fs, ∀ tables, p.2.coerceTo tables p.1.type = some p.2)
    (stored : s.objects[o.id - 1]? = some ⟨o.cls.id, values⟩)
    (filled : values.length = o.cls.code.fields.length) :
    ∃ s', patchAll o (fs.map fun p => (p.1.name, p.2)) s = (.ok (), s') ∧
      s'.fields o = values.take before.length ++ fs.map (·.2) := by
  induction fs generalizing before s values with
  | nil =>
    rw [List.map_nil, List.append_nil] at fields
    refine ⟨s, rfl, ?_⟩
    rw [Store.fields_stored stored, ← fields, ← filled, List.take_length, List.map_nil,
      List.append_nil]
  | cons p fs ih =>
    have inside : before.length < values.length := by
      rw [filled, fields]
      simp
    have new : ∀ g ∈ before, g.name ≠ p.1.name := by
      intro g member same
      rw [fields, List.map_append, List.nodup_append] at distinct
      exact distinct.2.2 g.name (List.mem_map_of_mem member) p.1.name (by simp) same
    have first := patchField_eq fields new (fits p List.mem_cons_self) stored inside
    have behind : o.cls.code.fields = (before ++ [p.1]) ++ fs.map (·.1) := by
      rw [fields]
      simp
    have written : (values.set before.length p.2).take (before.length + 1)
        = values.take before.length ++ [p.2] := by
      rw [List.take_add_one, List.take_set_of_le (Nat.le_refl _), List.getElem?_set_self inside]
      rfl
    have next := Store.setFields_own stored (values.set before.length p.2)
    obtain ⟨s', ran, ended⟩ := ih behind (fun q member => fits q (List.mem_cons_of_mem _ member))
      next (by rwa [List.length_set])
    rw [List.length_append, List.length_singleton, written, List.append_assoc] at ended
    refine ⟨s', ?_, ended⟩
    change (ExceptT.bindCont (fun _ => patchAll o (fs.map fun p => (p.1.name, p.2)))
      (patchField o p.1.name p.2 s).1) (patchField o p.1.name p.2 s).2 = _
    rw [first]
    exact ran

end

/-! ### Making proxies -/

/-- An object of a class whose fields have no initial values and whose constructor does nothing. -/
theorem instantiate_plain {c : LoadedClass} {k : Code.Constructor}
    (found : c.code.constructors.find? (·.params.isEmpty) = some k) (nothing : k.body = [])
    (noInit : ∀ f ∈ c.code.fields, f.init = none) {s s' : Store} {o : Object}
    (made : c.instantiate s = (.ok o, s')) :
    o = ⟨s.objects.size + 1, c⟩ ∧ s' = { s with
      objects := s.objects.push ⟨c.id, c.code.fields.map fun f => Value.default f.type⟩ } := by
  have constructed : construct (.within unlimited) c s = (.ok o, s') :=
    World.ok_of_mapFailure made
  have uninitialized : ∀ (fs : List Code.Field) (o : Object) (slot : Nat) (t : Store),
      (∀ f ∈ fs, f.init = none) → initFields (.within unlimited) o slot fs t = (.ok (), t) := by
    intro fs o slot t none_
    induction fs generalizing slot with
    | nil => rfl
    | cons f fs ih =>
      rw [initFields, none_ f List.mem_cons_self]
      exact ih (slot + 1) fun g member => none_ g (List.mem_cons_of_mem _ member)
  have isOpen : k.visibility ≠ .hidden := by
    intro hidden
    unfold construct at constructed
    rw [found] at constructed
    dsimp only at constructed
    rw [if_pos hidden] at constructed
    cases constructed
  rw [World.construct_eq _ found isOpen] at constructed
  obtain ⟨_, t, ran, rest⟩ := Run.bind_ok constructed
  rw [uninitialized _ _ _ _ noInit] at ran
  cases ran
  obtain ⟨_, t, ran, rest⟩ := Run.bind_ok rest
  cases rest
  refine ⟨rfl, ?_⟩
  rw [nothing] at ran
  unfold Run.nested at ran
  split at ran
  · cases ran
  · cases ran
    rfl

namespace Delegation

/-- The fields of the class with what a proxy holds in them. -/
def contents (contract : Descriptor) (handler : Nat) : List (Code.Field × Value) :=
  (fieldCode (handlerField, Builtin.handler), .handler handler)
    :: (fieldCode (interfaceField, Builtin.class_), .type contract)
    :: (methodFields contract).map fun f => (fieldCode (f.1, Builtin.method), .method f.2)

variable {contract : Descriptor} {handler : Nat}

theorem contents_fields : (contents contract handler).map (·.1) = (code contract).fields := by
  simp [contents, code, fields, Function.comp_def]

theorem contents_patches :
    (contents contract handler).map (fun p => (p.1.name, p.2)) = proxyFields contract handler := by
  simp [contents, proxyFields, fieldCode, Function.comp_def]

theorem contents_fit : ∀ p ∈ contents contract handler, ∀ tables,
    p.2.coerceTo tables p.1.type = some p.2 := by
  intro p member tables
  rcases List.mem_cons.1 member with rfl | member
  · rfl
  · rcases List.mem_cons.1 member with rfl | member
    · rfl
    · obtain ⟨f, _, rfl⟩ := List.mem_map.1 member
      rfl

/-- What a proxy holds. -/
def holdings (contract : Descriptor) (handler : Nat) : List Value :=
  .handler handler :: .type contract :: contract.methods.map .method

theorem contents_values : (contents contract handler).map (·.2) = holdings contract handler := by
  rw [holdings, ← methodFields_methods contract]
  simp [contents, Function.comp_def]

end Delegation

/-! ### Generators that delegate -/

/-- The generator delegates, and so do the classes that it has resolved interfaces to. -/
structure Generator.Serves (g : Generator) (depth : Nat) : Prop extends g.Delegates depth where
  cached : ∀ contract c, g.cached? contract = some c → Delegation.Legal contract →
    contract.isInterface = true → Delegation.Generated contract depth c

theorem Generator.Delegates.scripted {g : Generator} {depth : Nat} (h : g.Delegates depth) :
    g.Scripted :=
  ⟨h.compiler, depth, h.loader⟩

theorem Generator.Delegates.moves {p q : Generator × Store} (moved : Moves p q) {depth : Nat}
    (h : p.1.Delegates depth) : q.1.Delegates depth := by
  refine ⟨?_, ?_, ?_⟩ <;> rw [moved.setup]
  · exact h.hooks
  · exact h.compiler
  · exact h.loader

section

variable {contract : Descriptor} {p q : Generator × Store} {depth : Nat}

theorem Generator.Serves.moves (moved : Moves p q) (serves : p.1.Serves depth) :
    q.1.Serves depth where
  toDelegates := serves.toDelegates.moves moved
  cached := fun contract c found =>
    serves.cached contract c ((moved.cached? contract).symm.trans found)

/-- Resolving contracts keeps that, and gives a delegating class for an interface with legal
names. -/
theorem resolve_serves (serves : p.1.Serves depth) (contract : Descriptor) :
    (resolve contract p).2.1.Serves depth ∧
      ∀ c, (resolve contract p).1 = .ok c → Delegation.Legal contract →
        contract.isInterface = true → Delegation.Generated contract depth c := by
  obtain ⟨c, member, ran⟩ | ⟨stop, q, moved, ran⟩ | ⟨c, q, _, _, made, moved, ran⟩ :=
    resolve_cases contract p
  · rw [ran]
    refine ⟨serves, ?_⟩
    rintro _ ⟨⟩
    exact serves.cached contract c member
  · rw [ran]
    exact ⟨serves.moves moved, nofun⟩
  · rw [ran]
    have generated : Delegation.Legal contract → contract.isInterface = true →
        Delegation.Generated contract depth c := fun legal isInterface =>
      Delegation.generate_code legal isInterface serves.toDelegates made
    have kept := serves.moves moved
    refine ⟨⟨⟨kept.hooks, kept.compiler, kept.loader⟩, ?_⟩, ?_⟩
    · intro other d found
      rw [Generator.cached?_remember] at found
      split at found
      · rename_i same
        subst same
        cases found
        exact generated
      · exact kept.cached other d found
    · rintro _ ⟨⟩
      exact generated

theorem onStore_ok {α : Type} {run : Run α} {a : α} (ran : onStore run p = (.ok a, q)) :
    run p.2 = (.ok a, q.2) ∧ q.1 = p.1 := by
  obtain ⟨g, s⟩ := p
  change ((run s).1, g, (run s).2) = _ at ran
  cases out : run s with
  | mk result t =>
    rw [out] at ran
    cases ran
    exact ⟨rfl, rfl⟩

/-- How a new instance is made. -/
theorem newInstance_value {o : Object} (ran : newInstance contract p = (.ok o, q)) :
    ∃ c s, resolve contract p = (.ok c, q.1, s) ∧ c.instantiate s = (.ok o, q.2) := by
  obtain ⟨c, ⟨g, s⟩, resolved, rest⟩ := bind_ok ran
  obtain ⟨o', ⟨g', s'⟩, stored, ended⟩ := bind_ok rest
  obtain ⟨made, rfl⟩ := onStore_ok stored
  rw [onStore_tables_bind] at ended
  split at ended
  · cases ended
    exact ⟨c, s, resolved, made⟩
  · cases ended

/-- What of a generator is kept by the parts of a generation is kept by the whole. -/
theorem bind_keeps {α β : Type} {P : Generator → Prop} {body : Generation α}
    {next : α → Generation β} (first : P (body p).2.1)
    (rest : ∀ a q, P q.1 → P (next a q).2.1) : P ((body >>= next) p).2.1 := by
  cases ran : body p with
  | mk result q =>
    rw [ran] at first
    cases result with
    | error stop =>
      rw [bind_error ran]
      exact first
    | ok a =>
      rw [bind_value ran]
      exact rest a q first

theorem newInstance_serves (serves : p.1.Serves depth) (contract : Descriptor) :
    (newInstance contract p).2.1.Serves depth := by
  refine bind_keeps (P := (·.Serves depth)) (resolve_serves serves contract).1 fun c q kept => ?_
  refine bind_keeps (P := (·.Serves depth)) kept fun o q kept => ?_
  rw [onStore_tables_bind]
  split <;> exact kept

/-- Making a proxy keeps that, too, whether or not it succeeds. -/
theorem augment_serves (serves : p.1.Serves depth) (contract : Descriptor) (handler : Nat) :
    (augment contract handler p).2.1.Serves depth := by
  unfold augment
  split
  · exact serves
  · refine bind_keeps (P := (·.Serves depth)) (newInstance_serves serves contract)
      fun o q kept => ?_
    exact bind_keeps (P := (·.Serves depth)) kept fun _ _ kept => kept

/-- How a proxy is made. -/
theorem augment_value {handler : Nat} {o : Object} (ran : augment contract handler p = (.ok o, q)) :
    contract.isInterface = true ∧ ∃ s, newInstance contract p = (.ok o, q.1, s) ∧
      patchAll o (proxyFields contract handler) s = (.ok (), q.2) := by
  unfold augment at ran
  cases isInterface : contract.isInterface with
  | false =>
    rw [isInterface] at ran
    cases ran
  | true =>
    rw [isInterface] at ran
    change (newInstance contract >>= fun o =>
      onStore (patchAll o (proxyFields contract handler)) >>= fun _ => pure o) p = _ at ran
    obtain ⟨o', ⟨g, s⟩, made, rest⟩ := bind_ok ran
    obtain ⟨_, ⟨g', s'⟩, stored, ended⟩ := bind_ok rest
    obtain ⟨filled, rfl⟩ := onStore_ok stored
    cases ended
    exact ⟨rfl, s, made, filled⟩

/-- A proxy is a new object of a delegating class and holds what it is to call the handler with. -/
theorem augment_holds (serves : p.1.Serves depth) (legal : Delegation.Legal contract)
    {handler : Nat} {o : Object} (ran : augment contract handler p = (.ok o, q)) :
    Delegation.Generated contract depth o.cls ∧
      q.2.fields o = Delegation.holdings contract handler := by
  obtain ⟨isInterface, s, made, filled⟩ := augment_value ran
  obtain ⟨c, t, resolved, made⟩ := newInstance_value made
  have generated : Delegation.Generated contract depth c := by
    have resolution := (resolve_serves serves contract).2 c
    rw [resolved] at resolution
    exact resolution rfl legal isInterface
  have fields : c.code.fields = [] ++ (Delegation.contents contract handler).map (·.1) := by
    rw [generated.code, Delegation.contents_fields, List.nil_append]
  have found : c.code.constructors.find? (·.params.isEmpty) = some ⟨[], .visible, 0, []⟩ := by
    rw [generated.code]
    rfl
  have noInit : ∀ f ∈ c.code.fields, f.init = none := by
    rw [generated.code]
    intro f member
    obtain ⟨f, _, rfl⟩ := List.mem_map.1 member
    rfl
  obtain ⟨rfl, same⟩ := instantiate_plain found rfl noInit made
  dsimp only at same
  refine ⟨generated, ?_⟩
  have distinct : (c.code.fields.map (·.name)).Nodup := by
    rw [generated.code, Delegation.code, List.map_map]
    exact generated.distinct
  have stored : s.objects[(⟨t.objects.size + 1, c⟩ : Object).id - 1]?
      = some ⟨c.id, c.code.fields.map fun f => Value.default f.type⟩ := by
    rw [same]
    exact Array.getElem?_push_size
  obtain ⟨s', whole, held⟩ := patchAll_eq fields distinct Delegation.contents_fit stored
    (List.length_map _)
  rw [Delegation.contents_patches, filled] at whole
  rw [(Prod.mk.inj whole).2, held, Delegation.contents_values]
  rfl

end

end Classwright

import Classwright.Proofs.Hosting

/-!
# Static fields are initialized on their own

An initial value of a static field has no object and no variables to go by. All it comes to are
texts and primitives, so it calls nothing but builtin methods: what it does is decided by the code
and the static fields of the class, and nothing but these static fields changes. So linking a class
does the same in every store in which the supertypes are known, whatever else is in it.
-/

namespace Classwright

/-! ### Values that lead nowhere -/

namespace Value

/-- Nulls, primitives and texts. -/
def Plain : Value → Prop
  | object _ | array _ | type _ | method _ | handler _ => False
  | _ => True

theorem plain_of_primitive? {v : Value} {kind : Primitive} (h : v.primitive? = some kind) :
    v.Plain := by
  cases v with
  | object _ | array _ | type _ | method _ | handler _ => cases h
  | _ => trivial

theorem plain_ofConstant (c : Code.Constant) : (Value.ofConstant c).Plain := by
  cases c <;> trivial

theorem plain_default (t : TypeRef) : (Value.default t).Plain := by
  rcases t with _ | kind | _ | _
  · trivial
  · cases kind <;> trivial
  · trivial
  · trivial

/-- No declared type matters for a plain value. -/
theorem isInstanceOf_of_plain {v : Value} (plain : v.Plain) (tables tables' : Tables)
    (t : TypeRef) : v.isInstanceOf tables t = v.isInstanceOf tables' t := by
  cases t with
  | void | primitive _ => rw [isInstanceOf, isInstanceOf]
  | named name =>
    rw [isInstanceOf, isInstanceOf]
    cases v with
    | object o => exact plain.elim
    | _ => rfl
  | array element =>
    cases v with
    | array items => exact plain.elim
    | _ => rw [isInstanceOf, isInstanceOf] <;> simp

theorem coerceTo_of_plain {v : Value} (plain : v.Plain) (tables tables' : Tables) (t : TypeRef) :
    v.coerceTo tables t = v.coerceTo tables' t := by
  cases t with
  | primitive kind => rfl
  | _ => simp only [coerceTo, isInstanceOf_of_plain plain tables tables']

theorem plain_of_coerceTo {v w : Value} (plain : v.Plain) {tables : Tables} {t : TypeRef}
    (made : v.coerceTo tables t = some w) : w.Plain := by
  unfold coerceTo at made
  split at made
  · split at made
    · split at made
      · exact plain_of_primitive? (convert_primitive made)
      · cases made
    · cases made
  · split at made
    · cases made
      exact plain
    · cases made

section

variable {v w : Value} {name : String} {args : List Value}

theorem plain_of_ofAny (made : Builtin.ofAny v name args = some w) : w.Plain := by
  unfold Builtin.ofAny at made
  split at made
  case h_4 => cases made
  all_goals
    cases made
    trivial

theorem plain_of_ofText {s : String} (made : Builtin.ofText s name args = some (.ok w)) :
    w.Plain := by
  have mapped : ∀ (e : Except Failure String) (f : String → Value), e.map f = .ok w →
      (∀ s, (f s).Plain) → w.Plain := by
    intro e f same plains
    cases e with
    | error _ => cases same
    | ok s =>
      cases same
      exact plains s
  unfold Builtin.ofText at made
  split at made
  case h_6 | h_7 => exact mapped _ _ (Option.some.inj made) fun _ => trivial
  case h_8 => cases made
  all_goals
    cases made
    trivial

theorem plain_of_ofType {d : Descriptor} (made : Builtin.ofType d name args = some w) :
    w.Plain := by
  unfold Builtin.ofType at made
  split at made <;> cases made <;> trivial

theorem plain_of_ofMethod {m : Classwright.Method} (made : Builtin.ofMethod m name args = some w) :
    w.Plain := by
  unfold Builtin.ofMethod at made
  split at made <;> cases made <;> trivial

/-- What values answer on their own is plain. -/
theorem plain_of_ofValue (made : Builtin.ofValue v name args = some (.ok w)) : w.Plain := by
  have sure : ∀ answer : Option Value, answer.map (@Except.ok Failure Value) = some (.ok w) →
      answer = some w := by
    intro answer answered
    obtain ⟨u, given, same⟩ := Option.map_eq_some_iff.1 answered
    cases same
    exact given
  unfold Builtin.ofValue at made
  rw [Option.or_eq_some_iff] at made
  rcases made with own | ⟨-, general⟩
  · cases v with
    | str s => exact plain_of_ofText own
    | type d => exact plain_of_ofType (sure _ own)
    | method m => exact plain_of_ofMethod (sure _ own)
    | _ => cases own
  · exact plain_of_ofAny (sure _ general)

end

end Value

/-- Values of which each is plain. -/
def Plains (vs : List Value) : Prop := ∀ v ∈ vs, v.Plain

/-! ### The static fields of a class in the store -/

theorem setIfInBounds_push {α : Type} (xs : Array α) (a b : α) :
    (xs.push a).setIfInBounds xs.size b = xs.push b := by
  rw [← Array.toList_inj]
  simp

namespace Store

variable {s : Store} {c : LoadedClass}

@[simp] theorem size_setStatics (s : Store) (c : LoadedClass) (vs : List Value) :
    (s.setStatics c vs).statics.size = s.statics.size :=
  Array.size_setIfInBounds

theorem setStatics_twice (s : Store) (c : LoadedClass) (vs ws : List Value) :
    (s.setStatics c vs).setStatics c ws = s.setStatics c ws := by
  simp [setStatics]

theorem setStatics_same (there : c.id < s.statics.size) : s.setStatics c (s.staticsOf c) = s := by
  unfold setStatics staticsOf
  rw [Array.getElem?_eq_getElem there, Option.getD_some, Array.setIfInBounds_def, dif_pos there,
    Array.set_getElem_self]

theorem staticsOf_setStatics (there : c.id < s.statics.size) (vs : List Value) :
    (s.setStatics c vs).staticsOf c = vs := by
  unfold setStatics staticsOf
  dsimp only
  rw [Array.getElem?_setIfInBounds_self_of_lt there]
  rfl

end Store

/-! ### Runs that keep to themselves -/

namespace Run

theorem coerce_apply (t : TypeRef) (v : Value) (s : Store) :
    coerce t v s = (match v.coerceTo s.tables t with
      | some v => pure v
      | none => fail (.invalidResult t.canonicalName v.kindName) : Run Value) s :=
  rfl

theorem readStatic_apply (c : LoadedClass) (slot : Nat) (s : Store) :
    readStatic c slot s = (match (s.staticsOf c)[slot]? with
      | some v => pure v
      | none => fail (.illegalArgument (.missingSlot c.code.name .static slot)) : Run Value) s :=
  rfl

/-- What is done about a failure does not matter to what exhausts the store. -/
theorem mapFailure_of_eq {α : Type} {body : Run α} {s t : Store} {result : Except Failure α}
    (ran : body s = (result.mapError .failed, t)) (change : Failure → Failure) :
    body.mapFailure change s = ((result.mapError change).mapError .failed, t) := by
  change (Except.mapError _ (body s).1, (body s).2) = _
  rw [ran]
  cases result <;> rfl

end Run

section

variable {α β : Type} {code : Code.Class} {count : Nat} {S : Failure → Prop} {P : α → Prop}

/-- Whichever class of the code it belongs to and whatever else is in the store, the run goes by the
static fields of the class and changes nothing else. They stay as many, and plain; `S` is known of
the failure and `P` of the value that the run ends with. -/
def Run.Secluded (code : Code.Class) (count : Nat) (run : LoadedClass → Run α) (S : Failure → Prop)
    (P : α → Prop) : Prop :=
  ∀ values, values.length = count → Plains values →
    ∃ (result : Except Failure α) (values' : List Value),
      values'.length = count ∧ Plains values' ∧ (∀ f, result = .error f → S f) ∧
      (∀ a, result = .ok a → P a) ∧
      ∀ (c : LoadedClass) (s : Store), c.code = code → c.id < s.statics.size →
        s.staticsOf c = values → run c s = (result.mapError .failed, s.setStatics c values')

namespace Run.Secluded

/-- A run that looks at no static field. -/
theorem of_result {run : LoadedClass → Run α} (result : Except Failure α)
    (error : ∀ f, result = .error f → S f) (ok : ∀ a, result = .ok a → P a)
    (ends : ∀ c s, c.code = code → run c s = (result.mapError .failed, s)) :
    Secluded code count run S P := by
  intro values length plain
  refine ⟨result, values, length, plain, error, ok, ?_⟩
  rintro c s same there rfl
  rw [ends c s same, Store.setStatics_same there]

theorem pure {a : α} (h : P a) : Secluded code count (fun _ => pure a) S P :=
  of_result (.ok a) nofun (by rintro _ ⟨⟩; exact h) fun _ _ _ => rfl

theorem fail {f : Failure} (h : S f) :
    Secluded code count (fun _ => (Run.fail f : Run α)) S P :=
  of_result (.error f) (by rintro _ ⟨⟩; exact h) nofun fun _ _ _ => rfl

theorem ofExcept {result : Except Failure α} (error : ∀ f, result = .error f → S f)
    (ok : ∀ a, result = .ok a → P a) :
    Secluded code count (fun _ => Run.ofExcept result) S P :=
  of_result result error ok fun _ _ _ => by cases result <;> rfl

theorem bind {run : LoadedClass → Run α} {next : LoadedClass → α → Run β} {R : β → Prop}
    (h : Secluded code count run S P) (hnext : ∀ a, P a → Secluded code count (next · a) S R) :
    Secluded code count (fun c => run c >>= next c) S R := by
  intro values length plain
  obtain ⟨result, values', length', plain', error, ok, ran⟩ := h values length plain
  have split : ∀ c s, (run c >>= next c) s = ExceptT.bindCont (next c) (run c s).1 (run c s).2 :=
    fun _ _ => rfl
  cases result with
  | error f =>
    refine ⟨.error f, values', length', plain', by rintro _ ⟨⟩; exact error f rfl, nofun, ?_⟩
    intro c s same there held
    refine (split c s).trans ?_
    rw [ran c s same there held]
    rfl
  | ok a =>
    obtain ⟨result, values'', length'', plain'', error', ok', ran'⟩ :=
      hnext a (ok a rfl) values' length' plain'
    refine ⟨result, values'', length'', plain'', error', ok', ?_⟩
    intro c s same there held
    refine (split c s).trans ?_
    rw [ran c s same there held]
    have rest := ran' c (s.setStatics c values') same (by rwa [Store.size_setStatics])
      (Store.staticsOf_setStatics there _)
    rw [Store.setStatics_twice] at rest
    exact rest

theorem mono {run : LoadedClass → Run α} {S' : Failure → Prop} {P' : α → Prop}
    (h : Secluded code count run S P) (errors : ∀ f, S f → S' f) (values : ∀ a, P a → P' a) :
    Secluded code count run S' P' := by
  intro held length plain
  obtain ⟨result, values', length', plain', error, ok, ran⟩ := h held length plain
  exact ⟨result, values', length', plain', fun f same => errors f (error f same),
    fun a same => values a (ok a same), ran⟩

theorem mapFailure {run : LoadedClass → Run α} {S' : Failure → Prop}
    (change : String → Failure → Failure) (h : Secluded code count run S P)
    (errors : ∀ f, S f → S' (change code.name f)) :
    Secluded code count (fun c => (run c).mapFailure (change c.code.name)) S' P := by
  intro values length plain
  obtain ⟨result, values', length', plain', error, ok, ran⟩ := h values length plain
  refine ⟨result.mapError (change code.name), values', length', plain', ?_, ?_, ?_⟩
  · cases result with
    | error f =>
      rintro _ ⟨⟩
      exact errors f (error f rfl)
    | ok a => exact nofun
  · cases result with
    | error f => exact nofun
    | ok a =>
      rintro _ ⟨⟩
      exact ok a rfl
  · rintro c s rfl there held
    exact mapFailure_of_eq (ran c s rfl there held) _

theorem readStatic (slot : Nat) :
    Secluded code count (fun c => Run.readStatic c slot) (fun _ => True) Value.Plain := by
  intro values length plain
  cases found : values[slot]? with
  | none =>
    refine ⟨.error (.illegalArgument (.missingSlot code.name .static slot)), values, length, plain,
      fun _ _ => trivial, nofun, ?_⟩
    rintro c s rfl there rfl
    refine (readStatic_apply c slot s).trans ?_
    rw [found, Store.setStatics_same there]
    rfl
  | some v =>
    refine ⟨.ok v, values, length, plain, fun _ _ => trivial, ?_, ?_⟩
    · rintro _ ⟨⟩
      exact plain v (List.mem_of_getElem? found)
    rintro c s rfl there rfl
    refine (readStatic_apply c slot s).trans ?_
    rw [found, Store.setStatics_same there]
    rfl

/-- Writing fails only where there is no such field. -/
theorem writeStatic (slot : Nat) {v : Value} (hv : v.Plain) (outside : ∀ f, ¬slot < count → S f) :
    Secluded code count (fun c => Run.writeStatic c slot v) S fun _ => True := by
  intro values length plain
  have split : ∀ c s, Run.writeStatic c slot v s = (if slot < (s.staticsOf c).length then
      (modify (·.setStatics c ((s.staticsOf c).set slot v)) : Run Unit)
      else Run.fail (.illegalArgument (.missingSlot c.code.name .static slot))) s :=
    fun _ _ => rfl
  by_cases inside : slot < count
  · refine ⟨.ok (), values.set slot v, ?_, ?_, nofun, fun _ _ => trivial, ?_⟩
    · rw [List.length_set, length]
    · intro w member
      rcases List.mem_or_eq_of_mem_set member with member | rfl
      · exact plain w member
      · exact hv
    · rintro c s rfl there rfl
      refine (split c s).trans ?_
      rw [if_pos (by rwa [length])]
      rfl
  · refine ⟨.error (.illegalArgument (.missingSlot code.name .static slot)), values, length, plain,
      fun f _ => outside f inside, nofun, ?_⟩
    rintro c s rfl there rfl
    refine (split c s).trans ?_
    rw [if_neg (by rwa [length]), Store.setStatics_same there]
    rfl

/-- What a plain value is converted to does not depend on the declared types. -/
theorem coerce (t : TypeRef) {v : Value} (plain : v.Plain) :
    Secluded code count (fun _ => Run.coerce t v) (fun _ => True) Value.Plain := by
  cases made : v.coerceTo (fun _ => {}) t with
  | none =>
    refine of_result (.error (.invalidResult t.canonicalName v.kindName)) (fun _ _ => trivial) nofun
      fun c s _ => ?_
    rw [coerce_apply, Value.coerceTo_of_plain plain, made]
    rfl
  | some w =>
    refine of_result (.ok w) (fun _ _ => trivial) ?_ fun c s _ => ?_
    · rintro _ ⟨⟩
      exact Value.plain_of_coerceTo plain made
    · rw [coerce_apply, Value.coerceTo_of_plain plain, made]
      rfl

end Run.Secluded

end

/-! ### Initial values -/

/-- A part of a body without variables that keeps to itself. -/
abbrev Body.Secluded {α : Type} (code : Code.Class) (count : Nat) (body : LoadedClass → Body α)
    (P : α → Prop) : Prop :=
  Run.Secluded code count (fun c => body c []) (fun _ => True) fun r => r.2 = [] ∧ P r.1

namespace Body.Secluded

variable {α β : Type} {code : Code.Class} {count : Nat} {P : α → Prop} {R : β → Prop}

theorem pure {a : α} (h : P a) : Body.Secluded code count (fun _ => pure a) P :=
  Run.Secluded.pure ⟨rfl, h⟩

theorem fail (f : Failure) : Body.Secluded code count (fun _ => (Body.fail f : Body α)) P :=
  Run.Secluded.of_result (.error f) (fun _ _ => trivial) nofun fun _ _ _ => rfl

theorem bind {body : LoadedClass → Body α} {next : LoadedClass → α → Body β}
    (h : Body.Secluded code count body P)
    (hnext : ∀ a, P a → Body.Secluded code count (next · a) R) :
    Body.Secluded code count (fun c => body c >>= next c) R := by
  change Run.Secluded code count (fun c => body c [] >>= fun r => next c r.1 r.2) _ _
  refine Run.Secluded.bind h ?_
  rintro ⟨a, _⟩ ⟨rfl, ha⟩
  exact hnext a ha

theorem lift {run : LoadedClass → Run α} (h : Run.Secluded code count run (fun _ => True) P) :
    Body.Secluded code count (fun c => liftM (run c)) P := by
  change Run.Secluded code count (fun c => run c >>= fun a => Pure.pure (a, [])) _ _
  exact Run.Secluded.bind h fun _ ha => Run.Secluded.pure ⟨rfl, ha⟩

theorem truth (v : Value) : Body.Secluded code count (fun _ => truth v) fun _ => True := by
  unfold Classwright.truth
  cases v.asBool? with
  | none => exact fail _
  | some b => exact pure trivial

theorem branch (v : Value) {yes no : LoadedClass → Body α} (hyes : Body.Secluded code count yes P)
    (hno : Body.Secluded code count no P) :
    Body.Secluded code count (fun c => do if ← Classwright.truth v then yes c else no c) P :=
  (truth v).bind fun b _ => by
    cases b with
    | true => exact hyes
    | false => exact hno

end Body.Secluded

/-- Calls of methods of plain values, which are builtin. -/
structure Calls.Direct (calls : Calls) : Prop where
  invoke : ∀ (v : Value) (name : String) (args : List Value), v.Plain →
    calls.invoke v name args = invokeValue calls v name args

theorem within_direct {rounds : Nat} (some_ : 0 < rounds) : (Calls.within rounds).Direct where
  invoke := by
    intro v name args plain
    obtain ⟨fewer, rfl⟩ := Nat.exists_eq_succ_of_ne_zero (Nat.ne_of_gt some_)
    change invokeValue (.within fewer) v name args = _
    unfold invokeValue
    cases v with
    | object _ | handler _ => exact plain.elim
    | _ => rfl

section

variable {code : Code.Class} {count : Nat} {calls : Calls}

theorem builtin_secluded (v : Value) (name : String) (args : List Value) :
    Run.Secluded code count (fun _ => match Builtin.ofValue v name args with
      | some result => Run.ofExcept result
      | none => Run.fail (.noSuchMethod v.kindName name args.length)) (fun _ => True)
      Value.Plain := by
  cases made : Builtin.ofValue v name args with
  | none => exact .fail trivial
  | some result =>
    refine .ofExcept (fun _ _ => trivial) ?_
    rintro w rfl
    exact Value.plain_of_ofValue made

theorem invoke_secluded (direct : calls.Direct) {v : Value} (plain : v.Plain) (name : String)
    (args : List Value) :
    Run.Secluded code count (fun _ => calls.invoke v name args) (fun _ => True) Value.Plain := by
  rw [direct.invoke v name args plain]
  unfold invokeValue
  cases v with
  | null => exact .fail trivial
  | object _ | handler _ => exact plain.elim
  | _ => exact builtin_secluded _ name args

theorem textOf_of_plain {call : Invoke} {v : Value} (plain : v.Plain) :
    textOf call v = pure v.text := by
  cases v with
  | object o => exact plain.elim
  | _ => rfl

theorem binary_secluded (op : BinaryOp) {a b : Value} (ha : a.Plain) (hb : b.Plain) :
    Run.Secluded code count (fun _ => binary calls.invoke op a b) (fun _ => True) Value.Plain := by
  unfold binary
  split
  · rw [textOf_of_plain ha, textOf_of_plain hb, pure_bind, pure_bind]
    exact .pure trivial
  · refine .ofExcept (fun _ _ => trivial) fun w made => ?_
    obtain ⟨kind, own⟩ := Arithmetic.exists_primitive?_binary made
    exact Value.plain_of_primitive? own

/-- To a type that is no primitive one, a cast converts as any other use does. -/
theorem castTo_reference {target : TypeRef} (reference : ∀ kind, target ≠ .primitive kind)
    (mode : Code.CastMode) (v : Value) : castTo target mode v = Run.coerce target v := by
  cases target with
  | primitive kind => exact absurd rfl (reference kind)
  | _ => cases mode <;> rfl

theorem castTo_secluded (target : TypeRef) (mode : Code.CastMode) {v : Value} (plain : v.Plain) :
    Run.Secluded code count (fun _ => castTo target mode v) (fun _ => True) Value.Plain := by
  cases target with
  | primitive kind =>
    unfold castTo
    cases mode with
    | convert =>
      dsimp only
      cases made : v.convert kind with
      | none => exact .fail trivial
      | some w => exact .pure (Value.plain_of_primitive? (Value.convert_primitive made))
    | check =>
      dsimp only
      split
      · rename_i w made
        split at made
        · cases made
          exact .pure plain
        · cases made
      · exact .fail trivial
  | _ =>
    rw [castTo_reference (fun _ => by simp) mode v]
    exact .coerce _ plain

/-- There is no object. -/
theorem this_secluded : Body.Secluded code count (fun c => Frame.this ⟨none, c⟩) fun _ => False :=
  .fail _

/-- Without variables there is nothing to be stored in. -/
theorem writeVar_secluded (slot : Nat) (v : Value) :
    Body.Secluded code count (fun c => Frame.writeVar ⟨none, c⟩ slot v) fun _ => False :=
  Run.Secluded.of_result (.error (.illegalArgument (.missingSlot code.name .local_ slot)))
    (fun _ _ => trivial) nofun (by rintro c s rfl; rfl)

mutual

/-- An expression without object and variables keeps to itself. -/
theorem eval_secluded (direct : calls.Direct) : (e : Code.Expr) →
    Body.Secluded code count (fun c => eval calls ⟨none, c⟩ e) Value.Plain
  | .const c => by
    simp only [eval]
    exact .pure (Value.plain_ofConstant c)
  | .var slot => by
    simp only [eval]
    exact .of_result (.error (.illegalArgument (.missingSlot code.name .local_ slot)))
      (fun _ _ => trivial) nofun (by rintro c s rfl; rfl)
  | .this => by
    simp only [eval]
    exact this_secluded.bind fun _ none_ => none_.elim
  | .field slot => by
    simp only [eval]
    exact this_secluded.bind fun _ none_ => none_.elim
  | .static slot => by
    simp only [eval]
    exact .lift (.readStatic slot)
  | .storeVar slot e => by
    simp only [eval]
    exact (eval_secluded direct e).bind fun v _ =>
      (writeVar_secluded slot v).bind fun _ none_ => none_.elim
  | .storeField slot e => by
    simp only [eval]
    exact (eval_secluded direct e).bind fun v _ =>
      this_secluded.bind fun _ none_ => none_.elim
  | .storeStatic slot e => by
    simp only [eval]
    exact (eval_secluded direct e).bind fun v hv =>
      (Body.Secluded.lift (.writeStatic slot hv fun _ _ => trivial)).bind fun _ _ => .pure hv
  | .unary op e => by
    simp only [eval]
    refine (eval_secluded direct e).bind fun v _ => .lift (.ofExcept (fun _ _ => trivial) ?_)
    intro w made
    obtain ⟨kind, own⟩ := Arithmetic.exists_primitive?_unary made
    exact Value.plain_of_primitive? own
  | .binary op l r => by
    simp only [eval]
    exact (eval_secluded direct l).bind fun a ha => (eval_secluded direct r).bind fun b hb =>
      .lift (binary_secluded op ha hb)
  | .and l r => by
    simp only [eval]
    refine (eval_secluded direct l).bind fun a _ => .branch a ?_ (.pure trivial)
    exact (eval_secluded direct r).bind fun b _ =>
      (Body.Secluded.truth b).bind fun _ _ => .pure trivial
  | .or l r => by
    simp only [eval]
    refine (eval_secluded direct l).bind fun a _ => .branch a (.pure trivial) ?_
    exact (eval_secluded direct r).bind fun b _ =>
      (Body.Secluded.truth b).bind fun _ _ => .pure trivial
  | .conditional c t e => by
    simp only [eval]
    exact (eval_secluded direct c).bind fun v _ =>
      .branch v (eval_secluded direct t) (eval_secluded direct e)
  | .cast target mode e => by
    simp only [eval]
    exact (eval_secluded direct e).bind fun v hv => .lift (castTo_secluded target mode hv)
  | .invoke receiver method args => by
    simp only [eval]
    exact (eval_secluded direct receiver).bind fun v hv => (evalAll_secluded direct args).bind
      fun vs _ => .lift (invoke_secluded direct hv method vs)
  | .invokeSuper method args => by
    simp only [eval]
    exact (evalAll_secluded direct args).bind fun vs _ =>
      this_secluded.bind fun _ none_ => none_.elim

theorem evalAll_secluded (direct : calls.Direct) : (es : List Code.Expr) →
    Body.Secluded code count (fun c => evalAll calls ⟨none, c⟩ es) fun _ => True
  | [] => by
    simp only [evalAll]
    exact .pure trivial
  | e :: es => by
    simp only [evalAll]
    exact (eval_secluded direct e).bind fun _ _ =>
      (evalAll_secluded direct es).bind fun _ _ => .pure trivial

end

theorem evalInitializer_secluded (direct : calls.Direct) (type : TypeRef) (init : Code.Expr) :
    Run.Secluded code count (fun c => evalInitializer calls ⟨none, c⟩ type init) (fun _ => True)
      Value.Plain := by
  have evaluated : Run.Secluded code count (fun c => eval calls ⟨none, c⟩ init [] >>= fun r =>
      (pure r.1 : Run Value)) (fun _ => True) Value.Plain :=
    Run.Secluded.bind (eval_secluded direct init) fun _ hr => .pure hr.2
  exact evaluated.bind fun _ hv => .coerce type hv

/-- The failure of the initial value of a static field of the class. -/
def Failure.IsInitial (className : String) (f : Failure) : Prop :=
  ∃ field cause, f = .staticInitializer className field cause

theorem initStatics_secluded (direct : calls.Direct) (slot : Nat) (fields : List Code.Field)
    (inside : slot + fields.length ≤ count) :
    Run.Secluded code count (fun c => initStatics calls c slot fields)
      (Failure.IsInitial code.name) fun _ => True := by
  induction fields generalizing slot with
  | nil => exact .pure trivial
  | cons f fields ih =>
    rw [List.length_cons] at inside
    have rest := ih (slot + 1) (by omega)
    simp only [initStatics]
    cases f.init with
    | none => exact rest
    | some init =>
      have evaluated : Run.Secluded code count (fun c => (evalInitializer calls ⟨none, c⟩ f.type
          init).mapFailure (.staticInitializer c.code.name f.name)) (Failure.IsInitial code.name)
          Value.Plain :=
        (evalInitializer_secluded direct f.type init).mapFailure
          (fun className => .staticInitializer className f.name) fun cause _ => ⟨f.name, cause, rfl⟩
      refine evaluated.bind fun v hv => ?_
      exact (Run.Secluded.writeStatic slot hv fun _ outside => absurd (by omega) outside).bind
        fun _ _ => rest

end

/-! ### Linking -/

/-- Linking a class with known supertypes comes to the same in every store: it adds the static
fields of the class, and if it fails, the initial value of one of them has failed. -/
theorem link_secluded (code : Code.Class) :
    ∃ (result : Except Failure Unit) (values : List Value),
      (∀ f, result = .error f → f.IsInitial code.name) ∧
      ∀ (s : Store) (id depth : Nat),
        (∀ t ∈ code.superclass :: code.interfaces, (s.tables id).resolves t = true) →
        link code id depth s
          = ((result.mapError .failed).map fun _ => ⟨s.statics.size, code, id, depth⟩,
            { s with statics := s.statics.push values }) := by
  obtain ⟨result, values, _, _, error, _, ran⟩ :=
    initStatics_secluded (within_direct (by decide : 0 < unlimited)) 0 code.statics
      (Nat.le_of_eq (Nat.zero_add _)) (code.statics.map fun f => Value.default f.type)
      (List.length_map _) (fun v member => by
        obtain ⟨f, _, rfl⟩ := List.mem_map.1 member
        exact Value.plain_default f.type)
  refine ⟨result, values, error, fun s id depth resolved => ?_⟩
  let c : LoadedClass := ⟨s.statics.size, code, id, depth⟩
  let started : Store :=
    { s with statics := s.statics.push (code.statics.map fun f => Value.default f.type) }
  have ended : initStatics (.within unlimited) c 0 code.statics started
      = (result.mapError .failed, { s with statics := s.statics.push values }) := by
    have fresh : started.staticsOf c = code.statics.map fun f => Value.default f.type := by
      simp [Store.staticsOf, started, c]
    refine (ran c started rfl (by simp [started, c]) fresh).trans ?_
    simp [Store.setStatics, started, c, setIfInBounds_push]
  have split : World.initialized c started = ExceptT.bindCont (fun _ => (pure c : Run LoadedClass))
      (initStatics (.within unlimited) c 0 code.statics started).1
      (initStatics (.within unlimited) c 0 code.statics started).2 := rfl
  rw [World.link_eq resolved]
  refine split.trans ?_
  rw [ended]
  cases result <;> rfl

end Classwright

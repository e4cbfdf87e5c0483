import Classwright.Proofs.Coherence
import Classwright.Proofs.Running
import Classwright.Proofs.Standing

/-!
# Type soundness

`World.Reached` are the stores that a host comes to by linking classes, making objects, invoking
methods and setting fields. In all of them fields hold values of their types, and from each of them
the expressions in the classes evaluate to values of their static types and the statements keep
their variables typed.

Nothing is claimed of worlds where a call in a body may choose, at run time, a method that the
checker has neither chosen nor compared with the one that it has chosen, and that returns values of
another type: `World.Coherent` excludes them.
-/

namespace Classwright

open Check

namespace World

/-- The stores of a world that a host can come to. A class or object that is made is the one that
its number stands for in this world. -/
inductive Reached (W : World) : Store → Prop
  | start {s : Store} : s.registries = W.registries → s.objects = #[] → s.statics = #[] →
      (∀ code ∈ s.handlers, W.HonestHandler World.anything code) → Reached W s
  | handler {s : Store} {code : HandlerCode} : Reached W s → W.HonestHandler World.anything code →
      Reached W (s.addHandler code).2
  | link {s : Store} {code : Code.Class} {depth : Nat} : Reached W s →
      ((∀ t ∈ code.superclass :: code.interfaces, W.table.resolves t = true) →
        W.classes s.statics.size = some ⟨s.statics.size, code, W.path, depth⟩) →
      Reached W (link code W.path depth s).2
  | instantiate {s : Store} {n : Nat} {c : LoadedClass} : Reached W s → W.classes n = some c →
      Reached W (c.instantiate s).2
  | invoke {s : Store} {o : Object} {name : String} {args : List Value} : Reached W s →
      W.HasObject o → W.KnowsAll args → Reached W (o.invoke name args s).2
  | set {s : Store} {n : Nat} {c : LoadedClass} {name : String} {h : FieldHandle}
      {accessible : Bool} {o : Object} {v : Value} : Reached W s → W.classes n = some c →
      c.declaredField name = .ok h → W.HasObject o → W.Knows v →
      Reached W ((h.setAccessible accessible).set o v s).2

/-- The values conform to the types in their places. -/
def Conform (tables : Tables) (types : List TypeRef) (values : List Value) : Prop :=
  List.Forall₂ (fun t v => (v.coerceTo tables t).isSome = true) types values

/-- All fields and static fields of the store hold values that conform to their types. -/
structure StoreTyped (W : World) (s : Store) : Prop where
  fields : ∀ stored ∈ s.objects, ∃ c, W.classes stored.cls = some c ∧
    Conform s.tables (fieldTypes c.code.fields) stored.fields
  statics : ∀ n c, W.classes n = some c → n < s.statics.size →
    Conform s.tables (fieldTypes c.code.statics) (s.staticsOf c)

/-- Every expression in the class of this number evaluates to a value of its static type if it has
one, where the variables in scope hold what they should; variables and fields stay typed. -/
def ExpressionsSound (W : World) (n : Nat) : Prop :=
  ∀ site ∈ W.expressions n,
    let lowered := lowerExpr (W.context n) site.kind site.node site.scope
    lowered.2 = site.scope ∧ ∀ rounds frame locals s, W.FrameOf n frame →
      W.Holding site.scope.scopes.flatten locals → W.Conforms s →
      let result := eval (.within rounds) frame lowered.1.1 locals s
      W.Conforms result.2 ∧ ∀ v locals', result.1 = .ok (v, locals') →
        lowered.1.2.Holds W.tables v ∧ W.Holding site.scope.scopes.flatten locals'

/-- Every statement in the class of this number leaves each variable that has been declared and is
still in scope with a value of its type. -/
def StatementsSound (W : World) (n : Nat) : Prop :=
  ∀ site ∈ W.statements n,
    let lowered := lowerStmt (W.context n) site.kind site.node site.scope
    lowered.2.diagnostics = [] ∧ ∀ rounds frame locals s, W.FrameOf n frame →
      W.Holding site.scope.scopes.flatten locals → W.Conforms s →
      let result := execAll (.within rounds) frame lowered.1 locals s
      W.Conforms result.2 ∧
      (∀ locals', result.1 = .ok (.normal, locals') →
        W.Holding lowered.2.scopes.flatten locals') ∧
      ∀ v locals', result.1 = .ok (.returned v, locals') →
        W.Holding site.scope.scopes.flatten locals'

/-- The body of a member starts with the arguments, converted for the parameters, in the slots of
the parameters. -/
def ActivationsSound (W : World) (n : Nat) : Prop :=
  ∀ m ∈ (W.context n).members,
    let st := (declareParams m.bodyParams.1 m.bodyParams.2 {}).2
    st.diagnostics = [] ∧ st.Scoped ∧ ∀ args taken more, W.KnowsAll args →
      Value.coerceAll W.tables m.bodyParams.2 args = some taken →
      W.Holding st.scopes.flatten (taken ++ List.replicate more .null)

variable {W : World}

theorem Fit.conform {types : List TypeRef} {values : List Value} (h : W.Fit types values) :
    Conform W.tables types values :=
  List.Forall₂.imp (fun _ _ typed => Value.coerceTo_isSome_of_isInstanceOf typed.1) h

theorem Conforms.storeTyped (valid : W.Valid) {s : Store} (hs : W.Conforms s) :
    W.StoreTyped s where
  fields := by
    intro stored member
    obtain ⟨c, hc, fit⟩ := hs.fields stored member
    rw [hs.tables]
    exact ⟨c, hc, fit.conform⟩
  statics := by
    intro n c hc made
    rw [hs.tables, Store.staticsOf, (valid.compiled n c hc).1]
    have stored : s.statics[n]? = some s.statics[n] := Array.getElem?_eq_getElem made
    rw [stored]
    exact (hs.statics _ _ _ hc stored).conform

/-- Every step of a host keeps the store typed. -/
theorem Reached.conforms (valid : W.Valid) (serving : W.Serving) {s : Store}
    (reached : W.Reached s) : W.Conforms s := by
  induction reached with
  | start registries objects statics handlers =>
    refine ⟨registries, handlers, ?_, ?_⟩
    · rw [objects]
      simp
    · rw [statics]
      intro _ _ _ _ stored
      simp at stored
  | handler _ honest ih =>
    refine ⟨ih.registries, ?_, ih.fields, ih.statics⟩
    intro code member
    rcases Array.mem_push.1 member with member | rfl
    · exact ih.handlers code member
    · exact honest
  | link _ loaded ih =>
    exact linkWith_conforms valid serving (within_sound valid serving unlimited) ih loaded
  | @instantiate _ n c _ hc ih =>
    have own : W.classes c.id = some c := by
      rw [(valid.compiled n c hc).1]
      exact hc
    exact (instantiate_keeps valid serving own _ ih).1
  | invoke _ ho hargs ih => exact (invoke_sound valid serving (.object _) _ _ ho hargs _ ih).1
  | @set _ n c _ _ _ _ _ _ hc handle ho hv ih =>
    have own : W.classes c.id = some c := by
      rw [(valid.compiled n c hc).1]
      exact hc
    exact (FieldHandle.set_keeps valid.toLinked own ho handle _ hv _ ih).1

section

variable {n : Nat} {c : LoadedClass}

/-- The parts of an expression in a class stand in the class where it does. -/
theorem expressions_closed {site : Site Source.Expr} (inside : site ∈ W.expressions n) :
    ∀ p ∈ site.node.parts, ⟨site.kind, site.scope, p⟩ ∈ W.expressions n := by
  have closed : ∀ {es : List Source.Expr} {e}, e ∈ es.flatMap Source.Expr.parts →
      e.parts ⊆ es.flatMap Source.Expr.parts := by
    intro es e member p part
    obtain ⟨top, direct, within⟩ := List.mem_flatMap.1 member
    exact List.mem_flatMap.2 ⟨top, direct, Source.Expr.parts_trans within part⟩
  intro p part
  obtain ⟨m, member, inside⟩ := List.mem_flatMap.1 inside
  refine List.mem_flatMap.2 ⟨m, member, List.mem_append.2 ((List.mem_append.1 inside).imp ?_ ?_)⟩
  · intro initial
    cases m with
    | method decl info => cases initial
    | constructor decl types => cases initial
    | field decl info =>
      obtain ⟨e, within, rfl⟩ := List.mem_map.1 initial
      exact List.mem_map.2 ⟨p, closed within part, rfl⟩
  · intro inBody
    obtain ⟨stmt, standing, inStmt⟩ := List.mem_flatMap.1 inBody
    obtain ⟨e, within, rfl⟩ := List.mem_map.1 inStmt
    exact List.mem_flatMap.2 ⟨stmt, standing, List.mem_map.2 ⟨p, closed within part, rfl⟩⟩

/-- So do the statements inside a statement. -/
theorem statements_closed {site : Site Source.Stmt} (inside : site ∈ W.statements n) :
    sitesOf (W.context n) site.kind site.node site.scope ⊆ W.statements n := by
  obtain ⟨m, member, inside⟩ := List.mem_flatMap.1 inside
  intro inner within
  refine List.mem_flatMap.2 ⟨m, member, ?_⟩
  cases m with
  | field decl info => cases inside
  | method decl info => exact allSites_trans _ _ _ _ site inside within
  | constructor decl types => exact allSites_trans _ _ _ _ site inside within

theorem expressionsSound (valid : W.Valid) (serving : W.Serving) (hc : W.classes n = some c) :
    W.ExpressionsSound n := by
  intro site inside
  obtain ⟨ready, lowered, elaborates⟩ := expressions_stand valid hc site inside
  have ran := (no_silent_errors.2.1 _ _ _ _ _).1 elaborates
  have served : W.Served n site.kind site.scope site.node :=
    serving.served hc (expressions_closed inside)
  obtain ⟨_, kept, typed⟩ := lowerExpr_yields valid hc (fieldsPlaced valid n) site.kind site.node
    site.scope (by rw [ran]; exact ready.clean)
  refine ⟨kept, fun rounds frame locals s hframe held hs => ?_⟩
  obtain ⟨kept, ended⟩ := (typed ready.slots served).2 _ frame (within_sound valid serving rounds)
    hframe locals held s hs
  refine ⟨kept, fun v locals' same => ?_⟩
  rw [same] at ended
  exact ⟨ended.2.2, ended.1⟩

theorem statementsSound (valid : W.Valid) (serving : W.Serving) (hc : W.classes n = some c) :
    W.StatementsSound n := by
  intro site inside
  obtain ⟨ready, code, st', elaborates⟩ := statements_stand valid hc site inside
  have clean := (ready.behind valid hc site.kind elaborates).clean
  have served : W.AllServed n (sitesOf (W.context n) site.kind site.node site.scope) := by
    intro inner within e direct
    obtain ⟨m, member, standing⟩ := List.mem_flatMap.1 (statements_closed inside within)
    exact serving.body hc member inner standing e direct
  obtain ⟨_, lowered⟩ := lowerStmt_lowers valid hc (fieldsPlaced valid n) site.kind site.node
    site.scope clean
  have executes := (lowered ready.slots).2.2 served
  refine ⟨clean, fun rounds frame locals s hframe held hs => ?_⟩
  obtain ⟨kept, ended⟩ := executes _ frame (within_sound valid serving rounds) hframe
    locals held s hs
  refine ⟨kept, fun locals' same => ?_, fun v locals' same => ?_⟩
  · rw [same] at ended
    exact ended.2.1
  · rw [same] at ended
    exact ended.1

theorem activationsSound (valid : W.Valid) (hc : W.classes n = some c) :
    W.ActivationsSound n := by
  intro m member
  have clean := declareParams_clean valid hc member
  obtain ⟨_, declared⟩ := declareParams_checks _ _ {} clean
  obtain ⟨hst, vars⟩ := declared (bodyParams_novoid member) scoped_start
  refine ⟨clean, hst, fun args taken more known made => ?_⟩
  refine holding_args (fit_of_coerceAll known made) (fun x hx => ?_) more
  rcases vars x hx with none_ | ⟨i, t, at_, same⟩
  · exact nomatch none_
  · exact ⟨i, t, at_, by rw [same]; simp⟩

end

/-- The class language is type sound in every coherent world. -/
theorem type_sound (valid : W.Valid) (coherent : W.Coherent) :
    (∀ s, W.Reached s → W.StoreTyped s ∧ W.Conforms s) ∧
    ∀ n c, W.classes n = some c →
      W.ExpressionsSound n ∧ W.StatementsSound n ∧ W.ActivationsSound n := by
  have serving := coherent.serving valid.toLinked
  refine ⟨fun s reached => ?_, fun n c hc => ⟨?_, ?_, ?_⟩⟩
  · have hs := reached.conforms valid serving
    exact ⟨hs.storeTyped valid, hs⟩
  · exact expressionsSound valid serving hc
  · exact statementsSound valid serving hc
  · exact activationsSound valid hc

end World

/-! ### A run of one class -/

namespace Sample

/-- A host class whose method the host implements, and an interface. -/
def hosts : TypeTable where
  types := [
    ⟨"Base", .concreteClass, none, [], [], [⟨"scale", .int, [.int], [], .visible, false⟩]⟩,
    ⟨"Gauge", .interface, none, [], [], [⟨"read", .object, [.int], [], .visible, true⟩]⟩]

/-- A class that keeps what it has doubled last. It overrides a method with one that returns less,
inherits one, calls both, and calls a handler. Its overloads of `pick` return what has nothing to do
with each other, but nobody calls them. -/
def doubler : String :=
  "class Doubler extends Base implements Gauge \x7b int last = 1; static long made = 0; "
    ++ "int twice(int x) \x7b int y = scale(x); last = y; Gauge g = this; String s = toString(); "
    ++ "Object o = g.read(y); return y; \x7d "
    ++ "public String read(int x) \x7b return \"#\" + x; \x7d "
    ++ "public String toString() \x7b return super.toString() + last; \x7d "
    ++ "Object ask(Handler h, Class t, Method m) \x7b return h.call(t, m); \x7d "
    ++ "Object pick(String s) \x7b return s; \x7d int pick(Object o) \x7b return 1; \x7d \x7d"

/-- Native code that writes a field of the object before it answers. -/
def scale : NativeCode := fun o args =>
  .ask (.setField (classOf hosts doubler) "last" true o (.int 7)) fun _ =>
    match args with
    | [.int x] => .answer (.int (x + x))
    | _ => .fail (.noSuchMethod "Base" "scale" args.length)

/-- A handler that makes one more object of the class. -/
def maker : HandlerCode := fun _ _ _ =>
  .ask (.instantiate (classOf hosts doubler)) fun
    | .ok v => .answer v
    | .error f => .fail f

def registry : Registry where
  table := hosts
  hosts := [⟨"Base", [⟨"scale", 1, scale⟩]⟩]

/-- With any objects of the class. -/
def world : World :=
  { worldOf registry doubler with HasObject o := o.cls = classOf hosts doubler }

theorem doubler_links : Links hosts doubler := by decide +kernel

theorem doubler_linked : (worldOf registry doubler).Linked :=
  worldOf_linked doubler_links
    ⟨by decide, by decide⟩

theorem scale_honest : world.HonestNatives := by
  intro d member method arity code found o args taken _ known _ _
  have only : d.name = "Base" ∧ code = scale := by
    obtain ⟨host, member, named, n, native, -, -, rfl⟩ := Registry.native_of_native? found
    obtain rfl := List.mem_singleton.1 member
    obtain rfl := List.mem_singleton.1 native
    exact ⟨named.symm, rfl⟩
  obtain ⟨named, rfl⟩ := only
  have returns : ∀ m ∈ d.methods, m.returnType = .int := by
    have all : ∀ d ∈ hosts.types, d.name = "Base" → ∀ m ∈ d.methods, m.returnType = .int := by
      decide
    exact all d member named
  refine .ask ⟨rfl, known, trivial⟩ trivial fun r _ => ?_
  split
  · refine .answer trivial fun m taking => ?_
    have declared := List.mem_of_find?_eq_some taking
    rw [returns m (List.mem_filter.1 declared).1]
    rfl
  · exact .fail trivial

theorem maker_honest : world.HonestHandler World.anything maker := by
  refine fun _ _ _ _ => .ask rfl trivial fun r known => ?_
  cases r with
  | ok v => exact .answer known trivial
  | error f => exact .fail known

theorem world_valid : world.Valid where
  regular := doubler_linked.regular
  compiled := doubler_linked.compiled
  resolved := doubler_linked.resolved
  fresh := doubler_linked.fresh
  distinct := doubler_linked.distinct
  instances := by
    intro o ho
    rw [ho]
    rfl
  objects := fun o known => (worldOf_classes known).2
  natives := scale_honest

theorem calls_settled : ∀ call ∈ world.calls 0,
    ∀ choice ∈ world.candidates (classOf hosts doubler) call.name call.args.length,
      world.Vouched 0 call (classOf hosts doubler) choice ∨
        (call.callee? (world.context 0)).map (·.2) = some choice.type := by
  decide +kernel

theorem world_coherent : world.Coherent := by
  refine World.coherent_of_candidates fun n d hd call member m c hc => ?_
  obtain ⟨rfl, rfl⟩ := worldOf_classes hd
  obtain ⟨rfl, rfl⟩ := worldOf_classes hc
  exact calls_settled call member

/-- The store after the class has been linked, an object made, and its methods invoked. -/
def lastStore : Store :=
  let linked := (link (codeOf hosts doubler) 0 64 { registries := #[registry] }).2
  let made := ((classOf hosts doubler).instantiate linked).2
  let doubled := ((objectOf hosts doubler).invoke "twice" [.int 21] made).2
  let handled := (doubled.addHandler maker).2
  ((objectOf hosts doubler).invoke "ask" [.handler 0, .type { name := "Gauge", kind := .interface },
    .method { name := "read" }] handled).2

theorem doubler_run :
    (lastStore.fields (objectOf hosts doubler)).map (·.text) = ["42"] ∧
    lastStore.objects.size = 2 := by
  decide +kernel

theorem reached_lastStore : world.Reached lastStore := by
  have start : world.Reached { registries := #[registry] } :=
    .start rfl rfl rfl fun _ member => nomatch member
  have linked : world.Reached
      (link (codeOf hosts doubler) world.path 64 { registries := #[registry] }).2 :=
    .link start fun _ => rfl
  have made := World.Reached.instantiate (n := 0) linked rfl
  have doubled : world.Reached
      ((objectOf hosts doubler).invoke "twice" [.int 21] _).2 :=
    .invoke made rfl ⟨trivial, trivial⟩
  exact .invoke (.handler doubled maker_honest) rfl ⟨trivial, trivial, trivial, trivial⟩

/-- After the run the field holds what was doubled, which is of its type, and the handler has made a
second object. -/
theorem doubler_sound : world.Reached lastStore ∧ world.StoreTyped lastStore ∧
    world.ExpressionsSound 0 ∧ world.StatementsSound 0 ∧
    (lastStore.fields (objectOf hosts doubler)).map (·.text) = ["42"] ∧
    lastStore.objects.size = 2 := by
  have sound := World.type_sound world_valid world_coherent
  have ofClass := sound.2 0 (classOf hosts doubler) rfl
  exact ⟨reached_lastStore, (sound.1 _ reached_lastStore).1, ofClass.1, ofClass.2.1, doubler_run⟩

/-- A class whose call is checked against the one method and runs the other. -/
def chooser : String :=
  "class Chooser \x7b Object f(String s) \x7b return s; \x7d int f(Object o) \x7b return 1; \x7d "
    ++ "Object g() \x7b Object o = \"a\"; int x = f(o); return x; \x7d \x7d"

/-- The call `f(o)` where `o` is a variable of type `Object`, as it is lowered. -/
def chooserCall : Lowered × BodyState :=
  lowerExpr (contextOf {} (unitOf chooser)) (.method .object)
    (.ownCall "f" [.name "o" nowhere] nowhere)
    { scopes := [[("o", ⟨0, .object⟩)]], nextSlot := 1 }

def chooserStore : Store :=
  ((classOf {} chooser).instantiate (link (codeOf {} chooser) 0 64 { registries := #[{}] }).2).2

def isText? : Except Stop Value → Option String
  | .ok (.str s) => some s
  | _ => none

/-- The call has the static type `int` and gives a text, which `g` finds in its variable `x`. -/
theorem chooser_not_sound :
    compileSource {} chooser = .ok (codeOf {} chooser) ∧
    chooserCall.2.diagnostics = [] ∧ chooserCall.1.2 = .primitive .int ∧
    isText? ((eval (.within unlimited) ⟨some (objectOf {} chooser), classOf {} chooser⟩
      chooserCall.1.1).run' [.str "a"] chooserStore).1 = some "a" ∧
    isText? ((objectOf {} chooser).invoke "g" [] chooserStore).1 = some "a" ∧
    ((Value.str "a").coerceTo chooserStore.tables .int).isNone = true := by
  refine ⟨(compiles_of_isOk ?_).1, ?_⟩
  · decide +kernel
  · decide +kernel

end Sample

end Classwright

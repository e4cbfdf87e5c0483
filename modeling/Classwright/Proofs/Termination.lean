import Classwright.Proofs.Agreement

/-!
# Code without loops ends

A run uses up its rounds in loops and in calls within calls. Without loops, and with host code that
neither calls methods nor makes objects, every further call is one frame deeper, and the limit of
its class refuses it in the end; within a frame the code itself gets smaller. So a few more rounds
than the highest limit are enough, and others beyond them make no difference: the machine ends as if
rounds were never counted. Methods that call each other, texts of objects in sums and initial
values, which are no frames, are all alike.
-/

namespace Classwright

/-! ### What is at hand -/

/-- The class has no loops and allows at most so many calls in progress. -/
structure LoadedClass.Bounded (limit : Nat) (c : LoadedClass) : Prop where
  loopFree : c.code.loopFree = true
  depth : c.maxCallDepth ≤ limit

/-- Host code that comes to an end and asks for nothing but fields. What it writes and answers is
over the classes as long as it reads such. -/
inductive Foreign.Settles (Q : LoadedClass → Prop) : Foreign → Prop
  | answer {v : Value} : v.Over Q → Settles Q (.answer v)
  | fail (f : Failure) : Settles Q (.fail f)
  | ask {request : HostRequest} {next : Except Failure Value → Foreign} : request.UsesField →
      request.Over Q → (∀ r, (∀ v, r = .ok v → v.Over Q) → Settles Q (next r)) →
      Settles Q (.ask request next)
  | update {cell : Nat} {change : Nat → Nat} {next : Nat → Foreign} :
      (∀ n, Settles Q (next n)) → Settles Q (.update cell change next)

/-- All objects in the store are of classes without loops, and so are those that host code answers
with when it is given such, without calling back. -/
structure Store.Calm (limit : Nat) (s : Store) : Prop where
  objects : ∀ stored ∈ s.objects, Value.AllOver (·.Bounded limit) stored.fields
  statics : ∀ fields ∈ s.statics, Value.AllOver (·.Bounded limit) fields
  natives : ∀ {id type method arity code}, (s.registry id).native? type method arity = some code →
    ∀ o args, o.cls.Bounded limit → Value.AllOver (·.Bounded limit) args →
      (code o args).Settles (·.Bounded limit)
  handlers : ∀ {id : Nat} {code : HandlerCode}, s.handlers[id]? = some code →
    ∀ interface m args, Value.AllOver (·.Bounded limit) args →
      (code interface m args).Settles (·.Bounded limit)

namespace Setting

/-- Where nothing loops, and rounds are not used up. -/
def calm (limit : Nat) : Setting := ⟨Store.Calm limit, (·.Bounded limit), False⟩

variable {limit depth : Nat} {calls other : Calls}

theorem allOver_fields {s : Store} (calm_ : s.Calm limit) (o : Object) :
    Value.AllOver (·.Bounded limit) (s.fields o) := by
  unfold Store.fields
  cases found : s.objects[o.id - 1]? with
  | none => exact Value.allOver_nil
  | some stored =>
    dsimp only
    split
    · exact calm_.objects stored (Array.mem_of_getElem? found)
    · exact Value.allOver_nil

theorem allOver_setFields {s : Store} (calm_ : s.Calm limit) (o : Object) {vs : List Value}
    (held : Value.AllOver (·.Bounded limit) vs) :
    ∀ stored ∈ (s.setFields o vs).objects, Value.AllOver (·.Bounded limit) stored.fields := by
  intro stored member
  obtain ⟨i, found⟩ := Array.getElem?_of_mem member
  rw [Store.setFields, Array.getElem?_modify] at found
  split at found
  · obtain ⟨old, there, rfl⟩ := Option.map_eq_some_iff.1 found
    split
    · exact held
    · exact calm_.objects old (Array.mem_of_getElem? there)
  · exact calm_.objects stored (Array.mem_of_getElem? found)

theorem allOver_statics {s : Store} (calm_ : s.Calm limit) (c : LoadedClass) :
    Value.AllOver (·.Bounded limit) (s.staticsOf c) := by
  unfold Store.staticsOf
  cases found : s.statics[c.id]? with
  | none => exact Value.allOver_nil
  | some fields => exact calm_.statics fields (Array.mem_of_getElem? found)

theorem allOver_setStatics {s : Store} (calm_ : s.Calm limit) (c : LoadedClass) {vs : List Value}
    (held : Value.AllOver (·.Bounded limit) vs) :
    ∀ fields ∈ (s.setStatics c vs).statics, Value.AllOver (·.Bounded limit) fields := by
  intro fields member
  obtain ⟨i, found⟩ := Array.getElem?_of_mem member
  rw [Store.setStatics, Array.getElem?_setIfInBounds] at found
  split at found
  · split at found
    · cases found
      exact held
    · cases found
  · exact calm_.statics fields (Array.mem_of_getElem? found)

theorem calm_closed (limit : Nat) : (calm limit).Closed where
  fields hs o := allOver_fields hs o
  statics hs c := allOver_statics hs c
  setFields hs o _ held := ⟨allOver_setFields hs o held, hs.statics, hs.natives, hs.handlers⟩
  setStatics hs c _ held := ⟨hs.objects, allOver_setStatics hs c held, hs.natives, hs.handlers⟩
  pushObject hs _ held :=
    ⟨fun old member => (Array.mem_push.1 member).elim (hs.objects old) fun same => same ▸ held,
      hs.statics, hs.natives, hs.handlers⟩
  pushStatics hs _ held :=
    ⟨hs.objects, fun old member => (Array.mem_push.1 member).elim (hs.statics old) fun same =>
      same ▸ held, hs.natives, hs.handlers⟩
  called hs _ := ⟨hs.objects, hs.statics, hs.natives, hs.handlers⟩
  depth hs _ := ⟨hs.objects, hs.statics, hs.natives, hs.handlers⟩
  loops hc := .inr hc.loopFree

/-- Code that does not call back does not depend on how calls are carried out. -/
theorem settles_agrees {code : Foreign} (settles : code.Settles (·.Bounded limit)) :
    (calm limit).Agrees depth (code.run calls) (code.run other) (calm limit).Over := by
  induction settles with
  | answer held => exact .pure held
  | fail f => exact fail_agrees f
  | ask uses within _ ih => exact (usesField_agrees (calm_closed limit) uses within).outcome.bind ih
  | update _ ih =>
    have cells : ∀ {s} cells, (calm limit).At depth s →
        (calm limit).At depth { s with cells := cells } := fun _ hs =>
      ⟨hs.1, hs.2.objects, hs.2.statics, hs.2.natives, hs.2.handlers⟩
    exact ⟨fun s hs => (ih _).ensures _ (cells _ hs), fun s hs => (ih _).same _ (cells _ hs)⟩

theorem calm_hosts (limit depth : Nat) (calls other : Calls) :
    (calm limit).Hosts depth calls other where
  native hs _ _ _ _ _ registered o args ho held :=
    settles_agrees (hs.natives registered o args ho held)
  handler hs _ _ found interface m args held :=
    settles_agrees (hs.handlers found interface m args held)

/-- More rounds than there may be further frames are enough, by induction on the rounds: each frame
takes one and leaves room for one frame less. -/
theorem calm_invokes (rounds : Nat) {rounds' : Nat} (enough : limit - depth < rounds)
    (enough' : limit - depth < rounds') :
    (calm limit).Invokes depth (Calls.within rounds).invoke (Calls.within rounds').invoke := by
  induction rounds generalizing depth rounds' with
  | zero => omega
  | succ rounds ih =>
    obtain ⟨fewer, rfl⟩ : ∃ fewer, rounds' = fewer + 1 := ⟨rounds' - 1, by omega⟩
    have hosts := calm_hosts limit depth (.within rounds) (.within fewer)
    refine invokeValue_agrees (calm_closed limit) hosts fun c hc room => ?_
    have below := hc.depth
    exact ⟨ih (by omega) (by omega), calm_hosts .., False.elim⟩

theorem calm_relies {rounds rounds' : Nat} (enough : limit - depth < rounds)
    (enough' : limit - depth < rounds') :
    (calm limit).Relies depth (.within rounds) (.within rounds') :=
  ⟨calm_invokes rounds enough enough', calm_hosts .., False.elim⟩

end Setting

/-! ### Every run ends -/

/-- What is done ends with a value or a failure, in the same way and the same store whatever number
of rounds above the limit it is given; `invoke`, `link` and `instantiate` give `unlimited` rounds.
The store is calm again, and a value is as it should be. -/
def EndsWithin {α : Type} (limit : Nat) (run : Calls → Run α) (P : α → Prop) (s : Store) : Prop :=
  ∃ result t, (∀ rounds, limit < rounds → run (.within rounds) s = (result, t)) ∧
    t.Calm limit ∧ t.depth = s.depth ∧
    ((∃ f, result = .error (.failed f)) ∨ ∃ a, result = .ok a ∧ P a)

open Setting in
theorem endsWithin_of_agrees {α : Type} {limit : Nat} {run : Calls → Run α} {P : α → Prop}
    {s : Store} (calm_ : s.Calm limit)
    (agreed : ∀ rounds rounds', limit < rounds → limit < rounds' →
      (calm limit).Agrees s.depth (run (.within rounds)) (run (.within rounds')) P) :
    EndsWithin limit run P s := by
  have start : (calm limit).At s.depth s := ⟨rfl, calm_⟩
  obtain ⟨kept, ended⟩ := (agreed (limit + 1) (limit + 1) (by omega) (by omega)).ensures s start
  refine ⟨_, _, fun rounds more => (agreed (limit + 1) rounds (by omega) more).same s start,
    kept.2, kept.1, ?_⟩
  revert ended
  rcases (run (.within (limit + 1)) s).1 with (f | _) | a
  · exact fun _ => .inl ⟨f, rfl⟩
  · exact fun spent => (spent rfl).elim
  · exact fun holds => .inr ⟨a, rfl, holds⟩

open Setting in
/-- Where no class has loops and host code does not call back, everything that is asked of the
machine comes to an end, in every store, at every depth and on all arguments. -/
theorem loop_free_ends {limit : Nat} {s : Store} (calm_ : s.Calm limit) :
    (∀ receiver name args, receiver.Over (·.Bounded limit) →
      Value.AllOver (·.Bounded limit) args →
      EndsWithin limit (invokeValue · receiver name args) (·.Over (·.Bounded limit)) s) ∧
    (∀ code registry depth, code.loopFree = true → depth ≤ limit →
      EndsWithin limit (linkWith · code registry depth) (·.Bounded limit) s) ∧
    ∀ c : LoadedClass, c.Bounded limit →
      EndsWithin limit (fun calls => (construct calls c).mapFailure (.construction c.code.name))
        (·.cls.Bounded limit) s := by
  have closed := calm_closed limit
  have relies : ∀ {rounds rounds'}, limit < rounds → limit < rounds' → ∀ depth,
      (calm limit).Relies depth (.within rounds) (.within rounds') :=
    fun more more' depth => calm_relies (by omega) (by omega)
  refine ⟨fun receiver name args held overAll => ?_, fun code registry depth free below => ?_,
    fun c hc => ?_⟩
  · refine endsWithin_of_agrees calm_ fun rounds rounds' more more' => ?_
    have deeper : ∀ c, (calm limit).cls c → s.depth < c.maxCallDepth →
        (calm limit).Relies (s.depth + 1) (.within rounds) (.within rounds') :=
      fun _ _ _ => relies more more' _
    exact invokeValue_agrees closed (calm_hosts ..) deeper receiver name args held overAll
  · refine endsWithin_of_agrees calm_ fun rounds rounds' more more' => ?_
    refine (linkWith_agrees closed (relies more more' _) code registry depth).mono ?_
    rintro c ⟨rfl, rfl⟩
    exact ⟨free, below⟩
  · refine endsWithin_of_agrees calm_ fun rounds rounds' more more' => ?_
    have made := construct_agrees closed (relies more more' s.depth) hc fun _ =>
      relies more more' _
    refine (made.mono ?_).mapFailure fun _ _ => stops_failed _
    rintro o rfl
    exact hc

namespace Sample

/-- Tells its text by joining it to what the host calls. -/
def echoClass : LoadedClass where
  id := 0
  registry := 0
  maxCallDepth := 3
  code := {
    version := Code.formatVersion
    name := "Echo"
    superclass := Builtin.object
    interfaces := ["Hollow"]
    fields := [⟨"last", .named Builtin.string, .hidden, false, none⟩]
    statics := []
    constructors := []
    methods := [⟨"toString", [], .named Builtin.string, [], .visible, 0,
      [.ret (some (.binary .add (.invoke .this "hollo" []) .this))]⟩] }

/-- Writes a field and answers with what it reads from it then. -/
def hollo : NativeCode := fun o _ =>
  .ask (.setField echoClass "last" true o (.str "hollo")) fun _ => lastCalled o
where
  lastCalled (o : Object) : Foreign :=
    .ask (.getField echoClass "last" true o) fun
      | .ok v => .answer v
      | .error f => .fail f

/-- The handler tells what has been called last. -/
def echoStore : Store where
  registries := #[Registry.define {} { name := "Hollow", kind := .interface } [⟨"hollo", 0, hollo⟩]]
  objects := #[⟨0, [.null]⟩]
  handlers := #[fun _ _ _ => hollo.lastCalled ⟨1, echoClass⟩]

theorem echoStore_calm (limit : Nat) : echoStore.Calm limit := by
  have last : ∀ o, (hollo.lastCalled o).Settles (·.Bounded limit) := by
    refine fun o => .ask trivial trivial fun r within => ?_
    cases r with
    | ok v => exact .answer (within v rfl)
    | error f => exact .fail f
  refine ⟨?_, by simp [echoStore], fun {id type method arity code} found o args _ _ => ?_,
    fun {id code} found interface m args _ => ?_⟩
  · intro stored member
    obtain rfl : stored = ⟨0, [.null]⟩ := by simpa [echoStore] using member
    exact fun v member => List.mem_singleton.1 member ▸ Value.over_of_plain trivial
  · have only : code = hollo := by
      obtain ⟨host, known, -, n, native, -, -, rfl⟩ := Registry.native_of_native? found
      cases id with
      | zero =>
        obtain rfl := List.mem_singleton.1 known
        obtain rfl := List.mem_singleton.1 native
        rfl
      | succ id => cases known
    subst only
    exact .ask trivial (Value.over_of_plain trivial) fun _ _ => last o
  · cases id with
    | zero =>
      cases found
      exact last _
    | succ id => cases found

def askText (calls : Calls) : Except Stop Value × Store :=
  invokeValue calls (.object ⟨1, echoClass⟩) "toString" [] echoStore

def askLast (calls : Calls) : Except Stop Value × Store :=
  invokeValue calls (.handler 0) "call"
    [.type { name := "Hollow", kind := .interface }, .method { name := "last" }]
    (askText (.within 4)).2

def refusedAt? : Except Stop Value → Option Nat
  | .error (.failed (.stackOverflow limit)) => some limit
  | _ => none

theorem echo_runs : refusedAt? (askText (.within 4)).1 = some 3 ∧
    (askLast (.within 4)).1.toOption.map (·.text) = some "hollo" := by
  decide +kernel

/-- The text of itself ends where the calls do, however many rounds there are; then the handler
tells what the host has called. -/
theorem echo_ends :
    (echoStore.Calm 3 ∧ (Value.object ⟨1, echoClass⟩).Over (·.Bounded 3)) ∧
      (∀ rounds, 3 < rounds → refusedAt? (askText (.within rounds)).1 = some 3) ∧
      ∀ rounds, 3 < rounds → (askLast (.within rounds)).1.toOption.map (·.text) = some "hollo" := by
  have bounded : (Value.object ⟨1, echoClass⟩).Over (·.Bounded 3) :=
    Value.over_object.2 ⟨rfl, Nat.le_refl 3⟩
  have plain : Value.AllOver (·.Bounded 3)
      [.type { name := "Hollow", kind := .interface }, .method { name := "last" }] := by
    simp [Value.AllOver, Value.Over, Value.objects]
  obtain ⟨_, t, told, calm, -⟩ := (loop_free_ends (echoStore_calm 3)).1 _ "toString" [] bounded
    Value.allOver_nil
  have four : (askText (.within 4)).2 = t := congrArg Prod.snd (told 4 (by decide))
  obtain ⟨_, _, heard, -⟩ := (loop_free_ends (four ▸ calm)).1 (.handler 0) "call" _
    (by simp [Value.Over, Value.objects]) plain
  refine ⟨⟨echoStore_calm 3, bounded⟩, fun rounds more => ?_, fun rounds more => ?_⟩
  · have same : askText (.within rounds) = askText (.within 4) :=
      (told rounds more).trans (told 4 (by decide)).symm
    rw [same]
    exact echo_runs.1
  · have same : askLast (.within rounds) = askLast (.within 4) :=
      (heard rounds more).trans (heard 4 (by decide)).symm
    rw [same]
    exact echo_runs.2

end Sample

end Classwright

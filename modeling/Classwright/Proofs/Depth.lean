import Classwright.Proofs.Agreement

/-!
# The depth of calls

The store counts the calls in progress, and a call that would go deeper than the class of its object
allows is refused. What the count stands for are frames of methods and constructors. To speak of
them, the machine is given the stack of the classes whose frames are active, and an observer that is
shown the stack whenever a frame has been entered; all else it does as before, native code and
handlers included. An observer that only minds stacks with too many frames of a class is never
heard of, and the count is always back where it was when a call is over.
-/

namespace Classwright

/-- The classes whose methods and constructors are running, the innermost first. -/
abbrev CallStack := List LoadedClass

namespace CallStack

/-- For every class with frames on the stack, there are at most as many as its limit of the classes
with no higher limit. -/
def Disciplined (stack : CallStack) : Prop :=
  ∀ c ∈ stack, (stack.countP fun d => d.maxCallDepth ≤ c.maxCallDepth) ≤ c.maxCallDepth

instance (stack : CallStack) : Decidable stack.Disciplined :=
  inferInstanceAs (Decidable (∀ c ∈ stack, _))

theorem disciplined_nil : Disciplined [] := nofun

/-- The frames of the classes of one limit are no more than the limit. -/
theorem Disciplined.countP_le {stack : CallStack} (disciplined : Disciplined stack) (limit : Nat) :
    (stack.countP fun c => c.maxCallDepth = limit) ≤ limit := by
  by_cases some_ : ∃ c ∈ stack, c.maxCallDepth = limit
  · obtain ⟨c, member, rfl⟩ := some_
    refine Nat.le_trans (List.countP_mono_left fun d _ same => ?_) (disciplined c member)
    exact decide_eq_true (Nat.le_of_eq (of_decide_eq_true same))
  · have none_ : (stack.countP fun c => c.maxCallDepth = limit) = 0 := by
      rw [List.countP_eq_zero]
      exact fun c member same => some_ ⟨c, member, of_decide_eq_true same⟩
    omega

/-- One more frame where there is room for it. -/
theorem Disciplined.push {stack : CallStack} (disciplined : Disciplined stack) {c : LoadedClass}
    (room : stack.length < c.maxCallDepth) : Disciplined (c :: stack) := by
  have few : ∀ limit, (stack.countP fun d => d.maxCallDepth ≤ limit) ≤ stack.length :=
    fun _ => List.countP_le_length
  intro d member
  rw [List.countP_cons]
  by_cases counted : c.maxCallDepth ≤ d.maxCallDepth
  · have := few d.maxCallDepth
    simp only [counted, decide_true, if_true]
    omega
  · rcases List.mem_cons.1 member with rfl | member
    · exact absurd (Nat.le_refl _) counted
    · simpa [counted] using disciplined d member

end CallStack

/-! ### The machine under observation -/

/-- What is done when a frame has been entered. -/
abbrev Observer := CallStack → Run Unit

namespace Observer

variable (look : Observer)

/-- Runs a method of the object's class in a new frame. -/
def callMethod (calls : CallStack → Calls) (stack : CallStack) (o : Object) (m : Code.Method)
    (args : List Value) : Run Value :=
  Run.nested o.cls.maxCallDepth do
    look (o.cls :: stack)
    runFrame (calls (o.cls :: stack)) o m args

/-- Runs a constructor's body in a new frame. -/
def callConstructor (calls : CallStack → Calls) (stack : CallStack) (o : Object)
    (k : Code.Constructor) : Run Flow :=
  Run.nested o.cls.maxCallDepth do
    look (o.cls :: stack)
    runBody (calls (o.cls :: stack)) ⟨some o, o.cls⟩ k.locals [] k.body

/-- A new object of a class. Initial values of fields are no frame. -/
def construct (calls : CallStack → Calls) (stack : CallStack) (c : LoadedClass) : Run Object :=
  constructThrough (look.callConstructor calls stack) (calls stack) c

/-- Calls above a stack. What is inherited, and all host code, runs above the same stack. -/
def within : Nat → CallStack → Calls
  | 0, _ => ⟨fun _ _ _ => Run.exhausted, fun _ => Run.exhausted, 0⟩
  | rounds + 1, stack => {
      invoke := invokeThrough (look.callMethod (within rounds) stack) (within rounds stack)
      instantiate c :=
        (look.construct (within rounds) stack c).mapFailure (.construction c.code.name)
      rounds := rounds + 1 }

/-- The observer does nothing about stacks that are as they should be. -/
def Minds : Prop :=
  ∀ stack s, stack.Disciplined → s.depth = stack.length → look stack s = (.ok (), s)

end Observer

/-! ### Nothing is seen -/

namespace Setting

/-- Where nothing is known, and rounds may be used up. -/
def anywhere : Setting := ⟨fun _ => True, fun _ => True, True⟩

theorem anywhere_over (v : Value) : anywhere.Over v := fun _ _ => trivial

theorem anywhere_closed : anywhere.Closed where
  fields _ _ v _ := anywhere_over v
  statics _ _ v _ := anywhere_over v
  setFields _ _ _ _ := trivial
  setStatics _ _ _ _ := trivial
  pushObject _ _ _ := trivial
  pushStatics _ _ _ := trivial
  called _ _ := trivial
  depth _ _ := trivial
  loops _ := .inl trivial

variable {depth : Nat} {calls other : Calls}

/-- Objects are made alike. -/
def Instantiates (T : Setting) (depth : Nat) (calls other : Calls) : Prop :=
  ∀ c, T.cls c → T.Agrees depth (calls.instantiate c) (other.instantiate c) fun o => o.cls = c

/-- Host code only asks and answers, so it does alike whatever it is. -/
theorem foreign_agrees (invokes : anywhere.Invokes depth calls.invoke other.invoke)
    (instantiates : anywhere.Instantiates depth calls other) (code : Foreign) :
    anywhere.Agrees depth (code.run calls) (code.run other) anywhere.Over := by
  have asked : ∀ request : HostRequest,
      anywhere.Agrees depth (request.run calls) (request.run other) anywhere.Over := by
    intro request
    cases request with
    | invoke o method args =>
      exact invokes (.object o) method args (anywhere_over _) fun v _ => anywhere_over v
    | instantiate c => exact (instantiates c trivial).bind fun o _ => .pure (anywhere_over _)
    | getField c field accessible o =>
      have uses : HostRequest.UsesField (.getField c field accessible o) := trivial
      exact usesField_agrees anywhere_closed uses trivial
    | setField c field accessible o v =>
      have uses : HostRequest.UsesField (.setField c field accessible o v) := trivial
      exact usesField_agrees anywhere_closed uses (anywhere_over v)
  induction code with
  | answer v => exact .pure (anywhere_over v)
  | fail f => exact fail_agrees f
  | ask request next ih => exact (asked request).outcome.bind fun r _ => ih r
  | update cell change next ih =>
    exact ⟨fun s hs => (ih _).ensures _ hs, fun s hs => (ih _).same _ hs⟩

theorem anywhere_hosts (invokes : anywhere.Invokes depth calls.invoke other.invoke)
    (instantiates : anywhere.Instantiates depth calls other) :
    anywhere.Hosts depth calls other where
  native _ _ _ _ _ _ _ _ _ _ _ := foreign_agrees invokes instantiates _
  handler _ _ _ _ _ _ _ _ := foreign_agrees invokes instantiates _

/-- Without rounds nothing is done. -/
theorem relies_exhausted (depth : Nat) : anywhere.Relies depth (.within 0) (.within 0) := by
  have invokes : anywhere.Invokes depth (Calls.within 0).invoke (Calls.within 0).invoke :=
    fun _ _ _ _ _ => .refl (.exhausted fun _ => trivial)
  have instantiates : anywhere.Instantiates depth (.within 0) (.within 0) :=
    fun _ _ => .refl (.exhausted fun _ => trivial)
  exact ⟨invokes, anywhere_hosts invokes instantiates, fun _ => rfl⟩

end Setting

namespace Observer

open Setting

variable {look : Observer}

/-- Looking at a stack that is as it should be is no difference. -/
theorem Minds.agrees (minds : look.Minds) {stack : CallStack} (disciplined : stack.Disciplined)
    {α : Type} {run other : Run α} {P : α → Prop}
    (h : anywhere.Agrees stack.length run other P) :
    anywhere.Agrees stack.length run (do look stack; other) P where
  ensures := h.ensures
  same := fun s hs => (Run.bind_value (minds stack s disciplined hs.1)).trans (h.same s hs)

/-- A frame that has been entered where there was room for it is no difference. -/
theorem Minds.construct_agrees (minds : look.Minds) {rounds : Nat}
    (relies : ∀ {stack : CallStack}, stack.Disciplined →
      anywhere.Relies stack.length (.within rounds) (look.within rounds stack))
    {stack : CallStack} (disciplined : stack.Disciplined) (c : LoadedClass) :
    anywhere.Agrees stack.length (Classwright.construct (.within rounds) c)
      (look.construct (look.within rounds) stack c) fun o => o.cls = c := by
  rw [construct_through]
  refine constructThrough_agrees anywhere_closed (relies disciplined) trivial fun o ho k hk => ?_
  subst ho
  refine nested_agrees anywhere_closed fun room => ?_
  have deeper := disciplined.push room
  exact minds.agrees deeper
    (constructor_agrees anywhere_closed (relies deeper) trivial (.inl trivial))

/-- The machine does as it does under observation, above every stack that is as it should be. -/
theorem Minds.relies (minds : look.Minds) (rounds : Nat) {stack : CallStack}
    (disciplined : stack.Disciplined) :
    anywhere.Relies stack.length (.within rounds) (look.within rounds stack) := by
  induction rounds generalizing stack with
  | zero => exact relies_exhausted stack.length
  | succ rounds ih =>
    have invokes : anywhere.Invokes stack.length (Calls.within (rounds + 1)).invoke
        (look.within (rounds + 1) stack).invoke := by
      change anywhere.Invokes _ (invokeValue (.within rounds)) _
      rw [invokeValue_through]
      refine invokeThrough_agrees anywhere_closed (ih disciplined).hosts
        fun o ho m hm args held => ?_
      rw [callMethod_eq_nested]
      refine nested_agrees anywhere_closed fun room => ?_
      have deeper := disciplined.push room
      exact minds.agrees deeper (runFrame_agrees anywhere_closed (ih deeper) ho (.inl trivial) held)
    have instantiates : anywhere.Instantiates stack.length (.within (rounds + 1))
        (look.within (rounds + 1) stack) := fun c _ =>
      (minds.construct_agrees ih disciplined c).mapFailure fun _ _ => stops_failed _
    exact ⟨invokes, anywhere_hosts invokes instantiates, fun _ => rfl⟩

/-- What is done in so many rounds from a store is done so under observation, too. -/
structure Unheard (look : Observer) (rounds : Nat) (s : Store) : Prop where
  invoke : ∀ receiver method args, (look.within rounds []).invoke receiver method args s
    = Classwright.invokeWithin rounds receiver method args s
  link : ∀ code registry limit, linkWith (look.within rounds []) code registry limit s
    = linkWith (.within rounds) code registry limit s
  construct : ∀ c, look.construct (look.within rounds) [] c s
    = Classwright.construct (.within rounds) c s

theorem Minds.unheard (minds : look.Minds) (rounds : Nat) {s : Store} (start : s.depth = 0) :
    look.Unheard rounds s where
  invoke receiver method args := by
    have agreed := (minds.relies rounds CallStack.disciplined_nil).invoke receiver method args
      (anywhere_over _) fun v _ => anywhere_over v
    exact agreed.same s ⟨start, trivial⟩
  link code registry limit := by
    have relies := minds.relies rounds CallStack.disciplined_nil
    exact (linkWith_agrees anywhere_closed relies code registry limit).same s ⟨start, trivial⟩
  construct c := by
    have agreed := minds.construct_agrees (minds.relies rounds) CallStack.disciplined_nil c
    exact agreed.same s ⟨start, trivial⟩

end Observer

/-! ### Calls that go too deep -/

/-- No call is made where the depth has reached the limit of its class. -/
structure Calls.Refuse (calls : Calls) (s : Store) : Prop where
  method : ∀ (o : Object) m args, o.cls.maxCallDepth ≤ s.depth →
    callMethod calls o m args s = (.error (.failed (.stackOverflow o.cls.maxCallDepth)), s)
  constructor : ∀ (c : LoadedClass) o k, c.maxCallDepth ≤ s.depth →
    callConstructor calls c o k s = (.error (.failed (.stackOverflow c.maxCallDepth)), s)
  invoke : ∀ (o : Object) name args m taken, o.cls.maxCallDepth ≤ s.depth →
    o.cls.findMethod s.tables name args = .ok (some (m, taken)) →
    invokeValue calls (.object o) name args s
      = (.error (.failed (.stackOverflow o.cls.maxCallDepth)), s)

theorem Run.nested_refuses {α : Type} {limit : Nat} {s : Store} (deep : limit ≤ s.depth)
    (body : Run α) : Run.nested limit body s = (.error (.failed (.stackOverflow limit)), s) :=
  if_pos deep

theorem callMethod_refuses (calls : Calls) {s : Store} {o : Object}
    (deep : o.cls.maxCallDepth ≤ s.depth) (m : Code.Method) (args : List Value) :
    callMethod calls o m args s = (.error (.failed (.stackOverflow o.cls.maxCallDepth)), s) := by
  rw [callMethod_eq_nested]
  exact Run.nested_refuses deep _

theorem Calls.refuse (calls : Calls) (s : Store) : calls.Refuse s where
  method o m args deep := callMethod_refuses calls deep m args
  constructor c o k deep := by
    rw [callConstructor]
    exact Run.nested_refuses deep _
  invoke o name args m taken deep found := by
    have tables : Run.tables s = (.ok s.tables, s) := rfl
    change invokeObject calls o name args s = _
    rw [invokeObject, Run.bind_value tables, found]
    exact callMethod_refuses calls deep m taken

/-! ### The depth when a call is over -/

namespace Setting

theorem anywhere_relies (rounds depth : Nat) :
    anywhere.Relies depth (.within rounds) (.within rounds) := by
  induction rounds generalizing depth with
  | zero => exact relies_exhausted depth
  | succ rounds ih =>
    have invokes : anywhere.Invokes depth (Calls.within (rounds + 1)).invoke
        (Calls.within (rounds + 1)).invoke :=
      invokeValue_agrees anywhere_closed (ih depth).hosts fun _ _ _ => ih _
    have instantiates : anywhere.Instantiates depth (.within (rounds + 1))
        (.within (rounds + 1)) := fun c _ =>
      (construct_agrees anywhere_closed (ih depth) trivial fun _ => ih _).mapFailure
        fun _ _ => stops_failed _
    exact ⟨invokes, anywhere_hosts invokes instantiates, fun _ => rfl⟩

end Setting

/-- However what is done in so many rounds ends, the depth is what it was. -/
structure Balanced (rounds : Nat) (s : Store) : Prop where
  method : ∀ (o : Object) m args, (callMethod (.within rounds) o m args s).2.depth = s.depth
  constructor : ∀ (o : Object) k,
    (callConstructor (.within rounds) o.cls o k s).2.depth = s.depth
  invoke : ∀ receiver name args, (invokeWithin rounds receiver name args s).2.depth = s.depth
  link : ∀ code registry limit,
    (linkWith (.within rounds) code registry limit s).2.depth = s.depth
  construct : ∀ c, (construct (.within rounds) c s).2.depth = s.depth

open Setting in
theorem balanced (rounds : Nat) (s : Store) : Balanced rounds s := by
  have relies : ∀ depth, anywhere.Relies depth (.within rounds) (.within rounds) :=
    anywhere_relies rounds
  have kept : ∀ {α : Type} {run : Run α} {P : α → Prop}, anywhere.Agrees s.depth run run P →
      (run s).2.depth = s.depth := fun agreed => (agreed.ensures s ⟨rfl, trivial⟩).1.1
  have held : ∀ args, anywhere.AllOver args := fun _ v _ => anywhere_over v
  exact {
    method := fun o m args => kept (callMethod_agrees anywhere_closed trivial
      (fun _ => relies _) (.inl trivial) (held args))
    constructor := fun o k => kept (callConstructor_agrees anywhere_closed trivial
      (fun _ => relies _) (.inl trivial))
    invoke := fun v name args => kept ((relies _).invoke v name args (anywhere_over v) (held args))
    link := fun code registry limit => kept (linkWith_agrees anywhere_closed (relies _) code
      registry limit)
    construct := fun c => kept (construct_agrees anywhere_closed (relies _) trivial
      fun _ => relies _) }

/-- No run that starts at depth zero has more frames of a class than its limit: an observer that
would mind is never heard. Where the depth has reached the limit of a class, none of its methods and
constructors runs, and a call that is over leaves the depth as it was. -/
theorem call_depth_discipline {look : Observer} (minds : look.Minds) (rounds : Nat) {s : Store}
    (start : s.depth = 0) :
    look.Unheard rounds s ∧ (∀ calls : Calls, ∀ t, calls.Refuse t) ∧ ∀ t, Balanced rounds t :=
  ⟨minds.unheard rounds start, Calls.refuse, balanced rounds⟩

namespace Sample

/-- Its constructor and its method spin, which is left to the host. -/
def spiralClass : LoadedClass where
  id := 0
  registry := 0
  maxCallDepth := 3
  code := {
    version := Code.formatVersion
    name := "Spiral"
    superclass := Builtin.object
    interfaces := ["Spinner"]
    fields := []
    statics := []
    constructors := [⟨[], .visible, 0, [.expr (.invoke .this "spin" [])]⟩]
    methods := [⟨"turn", [], .object, [], .visible, 0,
      [.ret (some (.invoke .this "spin" []))]⟩] }

/-- Host code that passes on what it gets. -/
def passOn (request : HostRequest) : Foreign :=
  .ask request fun
    | .ok v => .answer v
    | .error f => .fail f

/-- To spin is to make one more, and the handler has the first one turn. -/
def spiralStore : Store where
  registries := #[Registry.define {} { name := "Spinner", kind := .interface }
    [⟨"spin", 0, fun _ _ => passOn (.instantiate spiralClass)⟩]]
  objects := #[⟨0, []⟩]
  handlers := #[fun _ _ _ => passOn (.invoke ⟨1, spiralClass⟩ "turn" [])]

/-- Gives up on a stack with too many frames of a class. -/
def alarm : Observer := fun stack => if stack.Disciplined then pure () else Run.exhausted

theorem alarm_minds : alarm.Minds := fun _ s disciplined _ => congrFun (if_pos disciplined) s

/-- The handler is called. -/
def spiralCall (call : Invoke) : Except Stop Value × Store :=
  call (.handler 0) "call" [.type { name := "Turner", kind := .interface },
    .method { name := "turn" }] spiralStore

/-- How many constructions failed because of a call that was refused, and at which limit. -/
def refusal? : Failure → Option (Nat × Nat)
  | .stackOverflow limit => some (0, limit)
  | .construction _ cause => (refusal? cause).map fun (count, limit) => (count + 1, limit)
  | _ => none

def ending? (ended : Except Stop Value × Store) : Option (Nat × Nat) :=
  match ended.1 with
  | .error (.failed f) => refusal? f
  | _ => none

/-- The frames of a method and of two constructors are all there are; the constructor of the third
new object is refused, and nobody has seen four frames. -/
theorem spiral_disciplined :
    (alarm.Minds ∧ spiralStore.depth = 0) ∧
      spiralCall (alarm.within 9 []).invoke = spiralCall (invokeWithin 9) ∧
      ending? (spiralCall (alarm.within 9 []).invoke) = some (3, 3) ∧
      (spiralCall (alarm.within 9 []).invoke).2.objects.size = 4 := by
  have unheard : spiralCall (alarm.within 9 []).invoke = spiralCall (invokeWithin 9) :=
    (call_depth_discipline alarm_minds 9 rfl).1.invoke _ _ _
  rw [unheard]
  refine ⟨⟨alarm_minds, rfl⟩, rfl, ?_⟩
  decide +kernel

end Sample

end Classwright

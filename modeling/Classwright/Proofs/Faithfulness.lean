import Classwright.Proofs.Foreseeing

/-!
# Proxies forward faithfully

Each call of an abstract method of a proxied interface is one call of the handler that the proxy was
made for, told which interface and which method it is and with the arguments as the method takes
them; the caller gets the handler's answer as far as it is one of the method's return type.
-/

namespace Classwright

open Check Generation

/-! ### The call of the handler -/

/-- Host code that calls no method and makes no object. -/
inductive Foreign.Quiet : Foreign → Prop
  | answer (v : Value) : Quiet (.answer v)
  | fail (f : Failure) : Quiet (.fail f)
  | ask {request : HostRequest} {next : Except Failure Value → Foreign} : request.UsesField →
      (∀ r, Quiet (next r)) → Quiet (.ask request next)
  | update {cell : Nat} {change : Nat → Nat} {next : Nat → Foreign} :
      (∀ n, Quiet (next n)) → Quiet (.update cell change next)

theorem Foreign.Quiet.leaves {code : Foreign} (quiet : code.Quiet) (calls : Calls)
    (earlier : List HandlerCall) : Run.Leaves (fun s => s.calls = earlier) (code.run calls) := by
  induction quiet with
  | answer v => exact .pure v
  | fail f => exact .fail f
  | ask uses _ ih =>
    have asked := uses.leaves (I := fun s => s.calls = earlier) (fun _ _ _ same => same) calls
    exact .andThen ((asked.outcome trivial).mono fun _ _ => trivial) ih
  | update _ ih => exact fun s same => ih _ _ same

/-- What handlers were told stays on record. -/
theorem stable_calls (earlier : List HandlerCall) :
    Store.Stable fun s => ∃ later, s.calls = later ++ earlier where
  setFields := fun _ _ _ h => h
  setStatics := fun _ _ _ h => h
  pushObject := fun _ _ h => h
  pushStatics := fun _ _ h => h
  called := fun _ call ⟨later, same⟩ => ⟨call :: later, congrArg (call :: ·) same⟩
  cells := fun _ _ h => h
  depth := fun _ _ h => h

namespace Delegation

/-- The call of the handler that a call of a proxy consists in, one call deeper. -/
def handled (handler : Nat) (contract : Descriptor) (m : Method) (args : List Value) (s : Store) :
    Except Stop Value × Store :=
  invokeHandler (.within (unlimited - 1)) handler contract m args
    { s with depth := s.depth + 1 }

/-- What the caller of a method of this type gets when the call of the handler ends so. -/
inductive Passes (tables : Tables) (type : TypeRef) : Except Stop Value → Except Stop Value → Prop
  | stop (reason : Stop) : Passes tables type (.error reason) (.error reason)
  | nothing (v : Value) : type = .void → Passes tables type (.ok v) (.ok .null)
  | anything (v : Value) : type = .object → Passes tables type (.ok v) (.ok v)
  | fitting {v w : Value} : type ≠ .void → type ≠ .object → v.isInstanceOf tables type = true →
      v.coerceTo tables type = some w → Passes tables type (.ok v) (.ok w)
  | unfitting {v : Value} : type ≠ .void → type ≠ .object → v.isInstanceOf tables type = false →
      Passes tables type (.ok v) (.error (.failed (.invalidResult type.canonicalName v.kindName)))

theorem passes_answered (tables : Tables) (type : TypeRef) (v : Value) :
    Passes tables type (.ok v) ((answered tables type v).mapError .failed) := by
  unfold answered
  by_cases void : type = .void
  · rw [if_pos void]
    exact .nothing v void
  by_cases object : type = .object
  · rw [if_neg void, if_pos object]
    exact .anything v object
  rw [if_neg void, if_neg object]
  cases fits : v.isInstanceOf tables type with
  | false => exact .unfitting void object fits
  | true =>
    obtain ⟨w, made⟩ := Option.isSome_iff_exists.1 (Value.coerceTo_isSome_of_isInstanceOf fits)
    rw [if_pos rfl, made]
    exact .fitting void object fits made

variable {contract : Descriptor} {depth handler : Nat} {m : Method} {args : List Value} {s : Store}

theorem forward_passes (below : s.depth < depth) {result : Except Stop Value} {t : Store}
    (ran : handled handler contract m args s = (result, t)) :
    ∃ answer, Passes t.tables m.returnType result answer ∧
      forward depth handler contract m args s = (answer, { t with depth := t.depth - 1 }) := by
  unfold handled at ran
  unfold forward Run.nested
  rw [if_neg (Nat.not_le.2 below)]
  generalize invokeHandler (.within (unlimited - 1)) handler contract m args = call at ran ⊢
  cases result with
  | error stop =>
    rw [Run.bind_stop ran]
    exact ⟨_, .stop stop, rfl⟩
  | ok v =>
    refine ⟨_, passes_answered t.tables m.returnType v, ?_⟩
    have tables : Run.tables t = (.ok t.tables, t) := rfl
    rw [Run.bind_value ran, Run.bind_value tables]
    cases answered t.tables m.returnType v <;> rfl

theorem invokeHandler_apply (calls : Calls) (handler : Nat) (contract : Descriptor) (m : Method)
    (args : List Value) (s : Store) :
    invokeHandler calls handler contract m args s = (match s.handlers[handler]? with
      | some code => (code contract m args).run calls
      | none => return .null : Run Value)
      { s with calls := ⟨handler, contract, m, args⟩ :: s.calls } := rfl

/-- The handler is told of the call once, before its code runs. -/
theorem handled_calls (handler : Nat) (contract : Descriptor) (m : Method) (args : List Value)
    (s : Store) :
    (∃ later, (handled handler contract m args s).2.calls
      = later ++ ⟨handler, contract, m, args⟩ :: s.calls) ∧
    ((∀ code, s.handlers[handler]? = some code → (code contract m args).Quiet) →
      (handled handler contract m args s).2.calls = ⟨handler, contract, m, args⟩ :: s.calls) := by
  unfold handled
  have leaves := within_leaves (stable_calls (⟨handler, contract, m, args⟩ :: s.calls))
    (unlimited - 1)
  generalize Calls.within (unlimited - 1) = calls at leaves ⊢
  rw [invokeHandler_apply]
  dsimp only
  cases s.handlers[handler]? with
  | none => exact ⟨⟨[], rfl⟩, fun _ => rfl⟩
  | some code =>
    exact ⟨((stable_calls _).foreign leaves (code contract m args) _ ⟨[], rfl⟩).1,
      fun quiet => ((quiet code rfl).leaves calls _ _ rfl).1⟩

end Delegation

/-! ### The call of a proxy -/

namespace Proxy

/-- A call of the proxy in this store that ends so is one of the handler for the method, and none of
another handler unless the handler's own code makes one. -/
structure Forwards (p : Proxy) (m : Method) (args : List Value) (s : Store)
    (ended : Except Stop Value × Store) : Prop where
  answer : ∀ result t, Delegation.handled p.handler p.contract m args s = (result, t) →
    ∃ answer, Delegation.Passes t.tables m.returnType result answer ∧
      ended = (answer, { t with depth := t.depth - 1 })
  told : ∃ later, ended.2.calls = later ++ ⟨p.handler, p.contract, m, args⟩ :: s.calls
  once : (∀ code, s.handlers[p.handler]? = some code → (code p.contract m args).Quiet) →
    ended.2.calls = ⟨p.handler, p.contract, m, args⟩ :: s.calls

variable {p : Proxy} {s : Store}

theorem forwards_forward {depth : Nat} (below : s.depth < depth) (m : Method) (args : List Value) :
    p.Forwards m args s (Delegation.forward depth p.handler p.contract m args s) := by
  obtain ⟨told, once⟩ := Delegation.handled_calls p.handler p.contract m args s
  have answer : ∀ result t, Delegation.handled p.handler p.contract m args s = (result, t) →
      ∃ answer, Delegation.Passes t.tables m.returnType result answer ∧
        Delegation.forward depth p.handler p.contract m args s
          = (answer, { t with depth := t.depth - 1 }) :=
    fun _ _ => Delegation.forward_passes below
  obtain ⟨_, _, ended⟩ := answer _ _ rfl
  refine ⟨answer, ?_, ?_⟩
  · rw [ended]
    exact told
  · rw [ended]
    exact once

/-- An intact proxy forwards what one of the abstract methods takes, and refuses everything else. -/
theorem Intact.invoke (intact : p.Intact s) (below : s.depth < p.object.cls.maxCallDepth)
    {name : String} {args : List Value} (declared : p.contract.overloads name args.length ≠ []) :
    (∀ m taken, p.contract.taker? s.tables name args = some (m, taken) →
      p.Forwards m taken s (p.object.invoke name args s)) ∧
    (p.contract.taker? s.tables name args = none →
      ∃ fault, p.object.invoke name args s = (.error (.failed (.illegalArgument fault)), s)) := by
  have called := Delegation.invoke_eq intact.1 intact.2 name args
  obtain ⟨first, others, overloads⟩ := List.exists_cons_of_ne_nil declared
  rw [overloads] at called
  refine ⟨fun m taken found => ?_, fun found => ?_⟩
  · rw [found] at called
    rw [called]
    exact forwards_forward below m taken
  · rw [found] at called
    exact ⟨_, called⟩

end Proxy

/-- A host can go on with a builder whatever it is asked for. And however the host has gone on since
a proxy of an interface with legal names was made: a call of it for which the interface declares an
abstract method goes to its handler, for the first of these methods that takes the arguments; and it
is refused if there is none, without a call of any handler. -/
theorem proxies_forward :
    (∀ W builders s made, World.Proxied W builders s made →
      ∀ i contract handler result g s',
        augment contract handler (builders i, s) = (result, g, s') →
        ∃ W', World.Proxied W' (Function.update builders i g) s'
          (Proxy.bound contract handler result made)) ∧
    ∀ W builders s made, World.Proxied W builders s made →
      ∀ p ∈ made, Delegation.Legal p.contract → s.depth < p.object.cls.maxCallDepth →
      ∀ name args, p.contract.overloads name args.length ≠ [] →
        (∀ m taken, p.contract.taker? s.tables name args = some (m, taken) →
          p.Forwards m taken s (p.object.invoke name args s)) ∧
        (p.contract.taker? s.tables name args = none →
          ∃ fault, p.object.invoke name args s = (.error (.failed (.illegalArgument fault)), s)) :=
  ⟨fun _ _ _ _ history i contract handler _ _ _ ran => history.augmented i contract handler ran,
    fun _ _ _ _ history p member legal below _ _ declared =>
      (history.keeps.intact p member legal).invoke below declared⟩

namespace Sample

/-- A builder that has not been asked for anything. -/
def delegator : Generator where
  hooks := .delegating
  registry := 0
  workplace := ["work"]
  compiler := scriptCompiler
  loader := unitLoader 64

/-- A host with a handler that gives one answer. -/
def hearing : Store := { registries := #[{}], handlers := #[fun _ _ _ => .answer (.str "heard")] }

/-- What is declared once the builder has been asked for the contract. -/
def declared (d : Descriptor) : Store := (declaring (delegator.needs d) (delegator, hearing)).2

/-- And once a class without static fields has been linked. -/
def linked (d : Descriptor) : Store := { declared d with statics := #[[]] }

/-- The class that the contract is compiled to can be linked, and a proxy of it passes the test. -/
def plays (d : Descriptor) (test : Object → Store → Bool) : Bool :=
  match delegator.source d with
  | .error _ => false
  | .ok source =>
    decide (source.Fits delegator.workplace) &&
    (kept? ((declared d).registry 0).table source.text).any fun code =>
      code.name == source.className && code.statics.isEmpty &&
      LoadedClass.isSubtypeOf (linked d).tables ⟨0, code, 0, 64⟩ d.name &&
      match LoadedClass.instantiate ⟨0, code, 0, 64⟩ (linked d) with
      | (.error _, _) => false
      | (.ok o, s) => LoadedClass.isSubtypeOf s.tables ⟨0, code, 0, 64⟩ d.name &&
        match patchAll o (proxyFields d 0) s with
        | (.error _, _) => false
        | (.ok _, t) => test o t

/-- What plays is made a proxy of. -/
theorem augment_of_plays {d : Descriptor} {test : Object → Store → Bool}
    (isInterface : d.isInterface = true) (played : plays d test = true) :
    ∃ o q, augment d 0 (delegator, hearing) = (.ok o, q) ∧ test o q.2 = true := by
  unfold plays at played
  cases sourced : delegator.source d with
  | error e =>
    rw [sourced] at played
    cases played
  | ok source =>
    rw [sourced] at played
    obtain ⟨fits, played⟩ := Bool.and_eq_true_iff.1 played
    obtain ⟨code, found, played⟩ := (Option.any_eq_true _ _).1 played
    obtain ⟨played, made⟩ := Bool.and_eq_true_iff.1 played
    obtain ⟨played, below⟩ := Bool.and_eq_true_iff.1 played
    obtain ⟨named, noStatics⟩ := Bool.and_eq_true_iff.1 played
    have implementable : d.isContract = true := by
      rw [Descriptor.isInterface, beq_iff_eq] at isInterface
      rw [Descriptor.isContract, isInterface]
      rfl
    obtain ⟨g, resolved⟩ :
        ∃ g, resolve d (delegator, hearing) = (.ok ⟨0, code, 0, 64⟩, g, linked d) :=
      ⟨_, resolve_of_kept rfl rfl rfl implementable rfl rfl sourced (of_decide_eq_true fits) found
        (beq_iff_eq.1 named) noStatics rfl below⟩
    cases instantiated : LoadedClass.instantiate ⟨0, code, 0, 64⟩ (linked d) with
    | mk result s =>
      rw [instantiated] at made
      cases result with
      | error stop => cases made
      | ok o =>
        obtain ⟨below', made⟩ := Bool.and_eq_true_iff.1 made
        cases filled : patchAll o (proxyFields d 0) s with
        | mk result t =>
          rw [filled] at made
          cases result with
          | error stop => cases made
          | ok _ =>
            exact ⟨o, (g, t), augment_ok isInterface resolved instantiated below' filled, made⟩

def ofLetter : Method := { name := "f", params := [.primitive .char, .primitive .float] }

def ofLong : Method := { name := "f", params := [.primitive .long] }

def ofInt : Method := { name := "f", params := [.primitive .int] }

/-- Methods of one name; the second of them takes what the third one takes, too. -/
def sink : Descriptor where
  name := "S"
  kind := .interface
  methods := [ofLetter, ofLong, ofInt]

/-- A method that says by what it throws how it is implemented. -/
def ofNothing : Method := { name := "f", throws := ["String \x7b \x7d void g() throws String"] }

def trap : Descriptor where
  name := "T"
  kind := .interface
  methods := [ofNothing]

theorem plays_runs : plays sink (fun o s => decide (s.depth < o.cls.maxCallDepth) &&
      s.calls.isEmpty && (o.invoke "f" [.long 1] { s with depth := 64 }).2.calls.isEmpty) = true ∧
    plays trap (fun o s => s.calls.isEmpty && (o.invoke "f" [] s).2.calls.isEmpty) = true := by
  constructor
  · decide +kernel
  · decide +kernel

theorem sink_legal : Delegation.Legal sink where
  name := by decide +kernel
  names := by decide +kernel
  methods := by decide +kernel

/-- A host that has asked a new builder for one proxy. -/
theorem history_of_augment {d : Descriptor} {o : Object} {q : Generator × Store}
    (made : augment d 0 (delegator, hearing) = (.ok o, q)) :
    ∃ W builders, World.Proxied W builders q.2 [⟨d, 0, o⟩] := by
  have start : emptyWorld.Arises hearing := by
    refine .start (fun _ => rfl) (fun _ => id) ?_ ?_
    · intro id type method arity code native
      cases id <;> cases native
    · intro code member W' _ interface m args _
      rw [List.mem_singleton.1 (Array.mem_def.1 member)]
      exact .answer trivial trivial
  have delegates : delegator.Delegates 64 := ⟨rfl, rfl, rfl⟩
  have history : World.Proxied emptyWorld (fun _ => delegator) hearing [] :=
    .start start (fun _ => ⟨64, delegates⟩) fun _ => rfl
  obtain ⟨W, history⟩ := history.augmented 0 d 0 made
  exact ⟨W, _, history⟩

/-- A number that the third method takes goes to the second one, and a truth value nowhere. -/
theorem sink_forwards : ∃ W builders s o, World.Proxied W builders s [⟨sink, 0, o⟩] ∧
    Delegation.Legal sink ∧ s.depth < o.cls.maxCallDepth ∧ sink.overloads "f" 1 ≠ [] ∧
    Proxy.Forwards ⟨sink, 0, o⟩ ofLong [.long 1] s (o.invoke "f" [.int 1] s) ∧
    ∃ fault, o.invoke "f" [.bool true] s = (.error (.failed (.illegalArgument fault)), s) := by
  obtain ⟨o, q, made, tested⟩ := augment_of_plays rfl plays_runs.1
  obtain ⟨W, builders, history⟩ := history_of_augment made
  simp only [Bool.and_eq_true, decide_eq_true_eq] at tested
  have below := tested.1.1
  have declared : sink.overloads "f" 1 ≠ [] := by decide
  have forwards := proxies_forward.2 W builders q.2 _ history ⟨sink, 0, o⟩ (by simp) sink_legal below
    "f"
  exact ⟨W, builders, q.2, o, history, sink_legal, below, declared,
    (forwards [.int 1] declared).1 _ _ rfl, (forwards [.bool true] declared).2 rfl⟩

end Sample

end Classwright

import Classwright.Proofs.Faithfulness
import Classwright.Proofs.Retraction

/-!
# Overloads of a proxied interface

A call whose arguments are of exactly the types of an abstract method reaches the handler with that
method and these arguments, unless an overload that is declared before it takes the arguments, too:
then the first one that does is told to the handler, with the arguments widened. A value that is
converted to its own type stays as it is, apart from a character of more than 16 bits and from a
number that signals.
-/

namespace Classwright

open Check

/-! ### Conversion to the own type -/

namespace Value

/-- Whether the value is of just this type: of the primitive type, or a text, a type, a method or a
handler where one is wanted. -/
def isExactly : TypeRef → Value → Bool
  | .primitive kind, v => v.primitive? == some kind
  | .named name, .str _ => name == Builtin.string
  | .named name, .type _ => name == Builtin.class_
  | .named name, .method _ => name == Builtin.method
  | .named name, .handler _ => name == Builtin.handler
  | _, _ => false

variable {tables : Tables}

theorem isInstanceOf_of_isExactly {type : TypeRef} {v : Value} (own : v.isExactly type = true) :
    v.isInstanceOf tables type = true := by
  cases type with
  | primitive kind => exact own
  | named name =>
    cases v with
    | str | type | method | handler => exact Bool.or_eq_true_iff.2 (.inr own)
    | _ => cases own
  | _ => cases own

theorem coerceTo_self {type : TypeRef} {v : Value} (own : v.isExactly type = true)
    (kept : v.isKept = true) : v.coerceTo tables type = some v := by
  cases type with
  | primitive kind =>
    have own : v.primitive? = some kind := beq_iff_eq.1 own
    rw [coerceTo_primitive own]
    exact convert_self own kept
  | _ => exact coerceTo_of_isInstanceOf (by simp) (isInstanceOf_of_isExactly own)

theorem coerceAll_self {types : List TypeRef} {values : List Value}
    (own : List.Forall₂ (fun type v => v.isExactly type = true) types values)
    (kept : ∀ v ∈ values, v.isKept = true) : coerceAll tables types values = some values := by
  induction own with
  | nil => rfl
  | cons head _ ih =>
    obtain ⟨first, rest⟩ := List.forall_mem_cons.1 kept
    rw [coerceAll, coerceTo_self head first, ih rest]
    rfl

end Value

/-! ### The method that a call is of -/

/-- The method is abstract, the arguments are of exactly its types, and no other method of its name
is declared with these types. -/
structure Descriptor.SinglesOut (d : Descriptor) (m : Method) (args : List Value) : Prop where
  isAbstract : m ∈ d.abstractMethods
  exact : List.Forall₂ (fun type v => v.isExactly type = true) m.params args
  alone : ∀ other ∈ d.methods, other.name = m.name → other.params = m.params → other = m

namespace Descriptor

variable {d : Descriptor} {m : Method} {args : List Value}

theorem SinglesOut.overloads (singled : d.SinglesOut m args) :
    m ∈ d.overloads m.name args.length :=
  List.mem_filter.2 ⟨singled.isAbstract, by simp [Method.arity, singled.exact.length_eq]⟩

/-- The first method that takes the arguments is the one that is called. -/
theorem taker?_of_overloads {tables : Tables} {name : String} {before after : List Method}
    {taken : List Value} (listed : d.overloads name args.length = before ++ m :: after)
    (refused : ∀ other ∈ before, Value.coerceAll tables other.params args = none)
    (takes : Value.coerceAll tables m.params args = some taken) :
    d.taker? tables name args = some (m, taken) := by
  refine List.findSome?_eq_some_iff.2 ⟨before, m, after, listed, ?_, fun other member => ?_⟩
  · rw [takes]
    rfl
  · rw [refused other member]
    rfl

end Descriptor

namespace Proxy

variable {p : Proxy} {m other : Method} {args taken : List Value} {s : Store}

/-- Invoked with the name of the method, the proxy calls its handler with the method and with these
arguments. -/
def Reaches (p : Proxy) (m : Method) (args : List Value) (s : Store) : Prop :=
  ∃ later, (p.object.invoke m.name args s).2.calls
    = later ++ ⟨p.handler, p.contract, m, args⟩ :: s.calls

/-- Only one method is reached, with one list of arguments. -/
theorem Forwards.reaches_iff
    (forwards : p.Forwards other taken s (p.object.invoke m.name args s)) :
    p.Reaches m args s ↔ other = m ∧ taken = args := by
  obtain ⟨later, told⟩ := forwards.told
  constructor
  · rintro ⟨later', told'⟩
    rw [told, List.append_cons, List.append_cons later'] at told'
    have last := (List.append_inj' (List.append_cancel_right told') rfl).2
    cases last
    exact ⟨rfl, rfl⟩
  · rintro ⟨rfl, rfl⟩
    exact ⟨later, told⟩

/-- A method is reached with just the arguments that are taken of the call. -/
theorem Intact.reaches_iff (intact : p.Intact s) (below : s.depth < p.object.cls.maxCallDepth)
    (found : p.contract.taker? s.tables m.name args = some (other, taken)) :
    p.Reaches m args s ↔ other = m ∧ taken = args := by
  have declared : p.contract.overloads m.name args.length ≠ [] := by
    intro none
    rw [Descriptor.taker?, none] at found
    cases found
  exact ((intact.invoke below declared).1 other taken found).reaches_iff

end Proxy

/-- However a host has gone on since a proxy of an interface with legal names was made: a call whose
arguments are of exactly the types of an abstract method goes to the handler with the method and
with these arguments, unless an earlier overload takes them; then the first one that does is the one
that the handler is called with. -/
theorem overload_reached :
    ∀ W builders s made, World.Proxied W builders s made →
      ∀ p ∈ made, Delegation.Legal p.contract → s.depth < p.object.cls.maxCallDepth →
      ∀ m args, p.contract.SinglesOut m args →
        m ∈ p.contract.overloads m.name args.length ∧
        ∀ before after, p.contract.overloads m.name args.length = before ++ m :: after →
          ((∀ other ∈ before, Value.coerceAll s.tables other.params args = none) →
            (∀ v ∈ args, v.isKept = true) →
            p.Forwards m args s (p.object.invoke m.name args s)) ∧
          ∀ earlier first others taken, before = earlier ++ first :: others →
            (∀ other ∈ earlier, Value.coerceAll s.tables other.params args = none) →
            Value.coerceAll s.tables first.params args = some taken →
            p.Forwards first taken s (p.object.invoke m.name args s) := by
  intro W builders s made history p member legal below m args singled
  have intact := history.keeps.intact p member legal
  have called := (intact.invoke below (List.ne_nil_of_mem singled.overloads)).1
  refine ⟨singled.overloads, fun before after listed => ⟨fun refused kept => ?_, ?_⟩⟩
  · have takes : Value.coerceAll s.tables m.params args = some args :=
      Value.coerceAll_self singled.exact kept
    exact called m args (Descriptor.taker?_of_overloads listed refused takes)
  · rintro earlier first others taken rfl refused takes
    rw [List.append_assoc, List.cons_append] at listed
    exact called first taken (Descriptor.taker?_of_overloads listed refused takes)

namespace Sample

/-- A character that takes more than 16 bits. -/
def wide : List Value := [.char (Char.ofNat 0x1f600), .float (.zero false)]

/-- A float that signals. -/
def signal : List Value := [.char 'a', .float ⟨0x7f800001⟩]

/-- A letter of 16 bits. -/
def isCut : List Value → Bool
  | [.char c, _] => c.toNat == 0xf600
  | _ => false

/-- A float that no longer signals. -/
def isQuiet : List Value → Bool
  | [_, .float x] => x.bits == 0x7fc00001
  | _ => false

/-- A method that takes other arguments than those that were passed. -/
theorem taker?_changes {tables : Tables} {m : Method} {args : List Value}
    (test : List Value → Bool) (refused : test args = false)
    (passed : (sink.taker? tables "f" args).any (fun found => found.1 == m && test found.2) = true) :
    ∃ taken, sink.taker? tables "f" args = some (m, taken) ∧ taken ≠ args := by
  obtain ⟨⟨other, taken⟩, found, both⟩ := (Option.any_eq_true _ _).1 passed
  obtain ⟨same, tested⟩ := Bool.and_eq_true_iff.1 both
  have same : other = m := beq_iff_eq.1 same
  subst same
  refine ⟨taken, found, ?_⟩
  rintro rfl
  exact absurd (refused.symm.trans tested) Bool.false_ne_true

/-- The letter is another one when it is taken. -/
theorem wide_changed (tables : Tables) :
    ∃ taken, sink.taker? tables "f" wide = some (ofLetter, taken) ∧ taken ≠ wide :=
  taker?_changes isCut rfl rfl

/-- The float is quiet when it is taken. -/
theorem signal_changed (tables : Tables) :
    ∃ taken, sink.taker? tables "f" signal = some (ofLetter, taken) ∧ taken ≠ signal :=
  taker?_changes isQuiet rfl rfl

/-- The second method takes what is of the type of the third one. -/
theorem int_widened (tables : Tables) :
    sink.taker? tables ofInt.name [.int 1] = some (ofLong, [.long 1]) := rfl

theorem ofInt_singled : sink.SinglesOut ofInt [.int 1] :=
  ⟨by decide, .cons rfl .nil, by decide⟩

theorem ofLong_singled : sink.SinglesOut ofLong [.long 1] :=
  ⟨by decide, .cons rfl .nil, by decide⟩

theorem wide_singled : sink.SinglesOut ofLetter wide :=
  ⟨by decide, .cons rfl (.cons rfl .nil), by decide⟩

theorem signal_singled : sink.SinglesOut ofLetter signal :=
  ⟨by decide, .cons rfl (.cons rfl .nil), by decide⟩

/-- What tells no handler reaches no method. -/
theorem not_reaches_of_silent {p : Proxy} {m : Method} {args : List Value} {s : Store}
    (silent : (p.object.invoke m.name args s).2.calls = []) : ¬ p.Reaches m args s := by
  rintro ⟨later, told⟩
  rw [silent] at told
  exact absurd told.symm (by simp)

/-- A number of the third method's type goes to the second one, widened. A character of more than 16
bits and a number that signals are changed on their way, and nothing is reached at the limit of
nested calls. What a method throws can be such that another method is made instead. -/
theorem sink_captured :
    (∃ W builders s o, World.Proxied W builders s [⟨sink, 0, o⟩] ∧
      (sink.SinglesOut ofInt [.int 1] ∧ ¬ Proxy.Reaches ⟨sink, 0, o⟩ ofInt [.int 1] s) ∧
      (sink.SinglesOut ofLetter wide ∧ ¬ Proxy.Reaches ⟨sink, 0, o⟩ ofLetter wide s) ∧
      (sink.SinglesOut ofLetter signal ∧ ¬ Proxy.Reaches ⟨sink, 0, o⟩ ofLetter signal s) ∧
      sink.SinglesOut ofLong [.long 1] ∧
        ¬ Proxy.Reaches ⟨sink, 0, o⟩ ofLong [.long 1] { s with depth := 64 }) ∧
    ∃ W builders s o, World.Proxied W builders s [⟨trap, 0, o⟩] ∧
      trap.SinglesOut ofNothing [] ∧ ¬ Proxy.Reaches ⟨trap, 0, o⟩ ofNothing [] s := by
  constructor
  · obtain ⟨o, q, made, tested⟩ := augment_of_plays rfl plays_runs.1
    obtain ⟨W, builders, history⟩ := history_of_augment made
    simp only [Bool.and_eq_true, decide_eq_true_eq, List.isEmpty_iff] at tested
    obtain ⟨⟨below, _⟩, limited⟩ := tested
    have intact := history.keeps.intact ⟨sink, 0, o⟩ (by simp) sink_legal
    refine ⟨W, builders, q.2, o, history, ⟨ofInt_singled, ?_⟩, ⟨wide_singled, ?_⟩,
      ⟨signal_singled, ?_⟩, ofLong_singled, not_reaches_of_silent limited⟩
    · rw [intact.reaches_iff below (int_widened _)]
      exact fun reaches => absurd reaches.1 (by decide)
    · obtain ⟨taken, found, changed⟩ := wide_changed q.2.tables
      rw [intact.reaches_iff below found]
      exact fun reaches => changed reaches.2
    · obtain ⟨taken, found, changed⟩ := signal_changed q.2.tables
      rw [intact.reaches_iff below found]
      exact fun reaches => changed reaches.2
  · obtain ⟨o, q, made, tested⟩ := augment_of_plays rfl plays_runs.2
    obtain ⟨W, builders, history⟩ := history_of_augment made
    simp only [Bool.and_eq_true, List.isEmpty_iff] at tested
    exact ⟨W, builders, q.2, o, history, ⟨by decide, .nil, by decide⟩,
      not_reaches_of_silent tested.2⟩

/-- A number that is refused by no method declared before reaches its own. -/
theorem sink_overload_reached : ∃ W builders s o, World.Proxied W builders s [⟨sink, 0, o⟩] ∧
    Delegation.Legal sink ∧ s.depth < o.cls.maxCallDepth ∧ sink.SinglesOut ofLong [.long 1] ∧
    sink.overloads "f" 1 = [] ++ ofLong :: [ofInt] ∧
    Proxy.Forwards ⟨sink, 0, o⟩ ofLong [.long 1] s (o.invoke "f" [.long 1] s) := by
  obtain ⟨o, q, made, tested⟩ := augment_of_plays rfl plays_runs.1
  obtain ⟨W, builders, history⟩ := history_of_augment made
  simp only [Bool.and_eq_true, decide_eq_true_eq] at tested
  have below := tested.1.1
  have reached := (overload_reached W builders q.2 _ history ⟨sink, 0, o⟩ (by simp) sink_legal
    below ofLong [.long 1] ofLong_singled).2 [] [ofInt] rfl
  exact ⟨W, builders, q.2, o, history, sink_legal, below, ofLong_singled, rfl,
    reached.1 nofun (by decide)⟩

end Sample

end Classwright

import Classwright.Proofs.Overriding

/-!
# Worlds whose calls can be checked

Whatever its arguments are, a call on an object runs one of a few methods of its name and arity.
`World.candidates` lists them; so if a world has finitely many classes, it can be checked by
evaluation that all calls in their bodies serve.
-/

namespace Classwright.World

open Check

variable {W : World} {n : Nat} {call : Call} {params : List TypeRef} {c : LoadedClass}

instance (W : World) (n : Nat) (call : Call) (c : LoadedClass) (choice : Choice) :
    Decidable (W.Vouched n call c choice) :=
  match choice with
  | .own k => inferInstanceAs (Decidable (∃ m ∈ call.selected? (W.context n),
      k.params = m.method.params ∧ (m.owner = c.code.name ∨
        m.method.visibility ≠ .hidden ∧ m ∈ (W.context c.id).inheritedMethods)))
  | .native _ declared => inferInstanceAs (Decidable (∃ m ∈ call.selected? (W.context n),
      declared = some m.method))
  | .builtin _ => decidable_of_iff ((call.selected? (W.context n)).isNone = true)
      Option.isNone_iff_eq_none

/-- What a call that is passed on above a class may run. -/
def candidatesAbove (W : World) (c : LoadedClass) (name : String) (arity : Nat) : List Choice :=
  match W.store.inheritedNative? c name arity with
  | some (host, _) =>
    if host.findMethods name arity = [] then [.native host none]
    else (host.findMethods name arity).map fun m => .native host (some m)
  | none => ((BuiltinMethod.ofAny? name arity).map Choice.builtin).toList

/-- What a call on an object of the class may run. -/
def candidates (W : World) (c : LoadedClass) (name : String) (arity : Nat) : List Choice :=
  (c.code.methods.filter fun m => m.name == name && m.params.length == arity).map .own
    ++ W.candidatesAbove c name arity

theorem mem_candidatesAbove {name : String} {args : List Value} {choice : Choice}
    (given : W.choiceAbove? c name args = some choice) :
    choice ∈ W.candidatesAbove c name args.length := by
  unfold candidatesAbove
  rcases choiceAbove?_cases given with ⟨host, code, found, which⟩ | ⟨none_, b, found, rfl⟩
  · rw [found]
    dsimp only
    rcases which with ⟨undeclared, rfl⟩ | ⟨m, declared, rfl⟩
    · rw [if_pos undeclared]
      exact List.mem_singleton_self _
    · rw [if_neg (List.ne_nil_of_mem declared)]
      exact List.mem_map.2 ⟨m, declared, rfl⟩
  · rw [none_, found]
    exact List.mem_singleton_self _

theorem Picks.mem_candidates {choice : Choice} (picks : W.Picks n call params c choice) :
    choice ∈ W.candidates c call.name call.args.length := by
  rcases picks.cases with ⟨k, _, _, rfl, _, _, hk, named, arity⟩ | ⟨args, length, given⟩
  · refine List.mem_append_left _ (List.mem_map.2 ⟨k, List.mem_filter.2 ⟨hk, ?_⟩, rfl⟩)
    rw [named, arity, beq_self_eq_true, beq_self_eq_true, Bool.and_true]
  · rw [← length]
    exact List.mem_append_right _ (mem_candidatesAbove given)

/-- A world is coherent if every candidate for a call in a body is what the checker has seen to, or
returns what the call is of. -/
theorem coherent_of_candidates (settled : ∀ n d, W.classes n = some d → ∀ call ∈ W.calls n,
    ∀ m c, W.classes m = some c → ∀ choice ∈ W.candidates c call.name call.args.length,
      W.Vouched n call c choice ∨
        (call.callee? (W.context n)).map (·.2) = some choice.type) : W.Coherent := by
  intro n d hd call member params result chosen c choice picks unvouched
  have hc : ∃ m, W.classes m = some c := by
    cases picks with
    | on _ hc => exact ⟨_, hc⟩
    | above _ hc => exact ⟨_, hc⟩
  obtain ⟨m, hc⟩ := hc
  rcases settled n d hd call member m c hc choice picks.mem_candidates with vouched | same
  · exact absurd vouched unvouched
  · rw [chosen] at same
    obtain rfl : result = choice.type := Option.some.inj same
    exact fun _ _ holds => holds

end Classwright.World

import Mathlib.Data.List.Pairwise
import Classwright.Proofs.Lineage
import Classwright.Proofs.Members

/-!
# Overriding

When a class is compiled, each of its methods is compared with those of the types above it that have
its name and parameters. So where a run chooses the method that the checker has chosen for a call,
or a method of the class that overrides it, what it gives is of the type that the checker has given
the call. `World.Coherent` says the same of all else that runs may choose for the calls in the
bodies: nobody has compared that.
-/

namespace Classwright.Check

variable {table : TypeTable} {unit : Source.CompilationUnit} {code : Code.Class}

/-! ### Methods of a class -/

theorem owner_of_mem_methods {m : OwnedMethod} (own : m ∈ (contextOf table unit).methods) :
    m.owner = (contextOf table unit).name := by
  simp only [ClassContext.methods, List.mem_filterMap] at own
  obtain ⟨member, inMembers, isMethod⟩ := own
  obtain ⟨before, after, split⟩ := List.append_of_mem inMembers
  obtain ⟨written, rfl⟩ := declareMembers_split ((contextOf_members ..).symm.trans split)
  cases written with
  | field decl => cases isMethod
  | constructor decl => cases isMethod
  | method decl =>
    cases isMethod
    rfl

/-- No two methods of a class have the same name and parameters. -/
theorem declareMembers_pairwise {scope : TypeScope} {className : String}
    {members : List Source.Member} (clean : (declareMembers scope className members).2 = []) :
    ((declareMembers scope className members).1.filterMap (·.method?)).Pairwise
      fun a b => a.sameParameters b = false := by
  induction members using List.reverseRecOn with
  | nil => exact .nil
  | append_singleton ms m ih =>
    rw [declareMembers_concat_diagnostics, List.append_eq_nil_iff] at clean
    rw [declareMembers_concat, List.filterMap_append, List.pairwise_append]
    cases m with
    | field decl => exact ⟨ih clean.1, .nil, fun _ _ _ last => nomatch last⟩
    | constructor decl => exact ⟨ih clean.1, .nil, fun _ _ _ last => nomatch last⟩
    | method decl =>
      refine ⟨ih clean.1, List.pairwise_singleton _ _, fun a earlier b last => ?_⟩
      have new := (List.append_eq_nil_iff.1 clean.2).2
      rw [List.mem_singleton.1 last]
      by_contra same
      rw [Bool.not_eq_false] at same
      rw [List.any_eq_true.2 ⟨a, earlier, same⟩] at new
      cases new

theorem Accepted.pairwise (accepted : Accepted table unit code) :
    (contextOf table unit).methods.Pairwise fun a b => a.sameParameters b = false := by
  have clean := accepted.declared_clean
  simp only [ClassContext.declare, List.append_eq_nil_iff] at clean
  exact declareMembers_pairwise clean.2

/-- The methods of the code are those that the class context declares. -/
theorem Accepted.exists_member_of_mem_code (accepted : Accepted table unit code)
    {k : Code.Method} (hk : k ∈ code.methods) :
    ∃ decl own, .method decl own ∈ (contextOf table unit).members ∧ own.method.name = k.name ∧
      own.method.params = k.params ∧ own.method.returnType = k.returnType := by
  rw [accepted.assembled] at hk
  simp only [assemble, List.filterMap_map, List.mem_filterMap, Function.comp] at hk
  obtain ⟨member, inMembers, isMethod⟩ := hk
  cases member with
  | field decl info => cases isMethod
  | constructor decl params => cases isMethod
  | method decl own =>
    cases isMethod
    exact ⟨decl, own, inMembers, rfl, rfl, rfl⟩

theorem Accepted.returnType_of_same (accepted : Accepted table unit code) {m : OwnedMethod}
    (own : m ∈ (contextOf table unit).methods) {k : Code.Method} (hk : k ∈ code.methods)
    (name : k.name = m.method.name) (params : k.params = m.method.params) :
    k.returnType = m.method.returnType := by
  obtain ⟨decl, m', member, sameName, sameParams, sameReturn⟩ :=
    accepted.exists_member_of_mem_code hk
  have own' : m' ∈ (contextOf table unit).methods := List.mem_filterMap.2 ⟨_, member, rfl⟩
  by_cases same : m = m'
  · rw [same, sameReturn]
  · have symmetric : Std.Symm fun a b : OwnedMethod => a.sameParameters b = false :=
      ⟨fun a b differ => by
        rw [← differ, OwnedMethod.sameParameters, OwnedMethod.sameParameters, Bool.beq_comm,
          Bool.beq_comm (a := b.method.params)]⟩
    have differ := accepted.pairwise.forall own own' same
    simp [OwnedMethod.sameParameters, sameName, sameParams, name, params] at differ

theorem Accepted.isInterface_of_mem (accepted : Accepted table unit code) :
    ∀ i ∈ code.interfaces, ∀ e, table.lookup i = some e → e.isInterface = true := by
  rw [accepted.assembled]
  intro i member e found
  obtain ⟨d, declared, isInterface⟩ := exists_of_mem_interfacesOf i member
  have same : table.lookup i = some d := contextOf_table table unit ▸ declared
  obtain rfl : d = e := Option.some.inj (same.symm.trans found)
  exact isInterface

/-- A method returns what fits every method that it overrides. -/
theorem Accepted.returnFits (accepted : Accepted table unit code) {decl : Source.MethodDecl}
    {own parent : OwnedMethod} (member : .method decl own ∈ (contextOf table unit).members)
    (inherited : parent ∈ (contextOf table unit).inheritedMethods)
    (same : parent.sameParameters own = true) (seen : parent.method.visibility ≠ .hidden) :
    (contextOf table unit).returnFits own.method.returnType parent.method.returnType = true := by
  have clean := (List.append_eq_nil_iff.1 accepted.inheritance_clean).1
  have compared := List.flatMap_eq_nil_iff.1 (List.flatMap_eq_nil_iff.1 clean _ member) parent
    (List.mem_filter.2 ⟨inherited, same⟩)
  rw [ClassContext.checkOverride, if_neg seen, List.append_eq_nil_iff] at compared
  by_contra apart
  simp [reportIf, apart] at compared

end Classwright.Check

namespace Classwright.World

open Check

variable {W : World} {n : Nat} {call : Call} {params : List TypeRef} {c d : LoadedClass}

/-! ### What is chosen -/

theorem mem_methodsOf_of_selected {cx : ClassContext} {m : OwnedMethod} {type : String}
    (selected : call.selected? cx = some m) (on : call.receiver = some type) :
    m ∈ cx.methodsOf type := by
  simp only [Call.selected?, on] at selected
  split at selected
  · cases selected
  · exact List.mem_of_find?_eq_some selected

theorem name_of_selected {cx : ClassContext} {m : OwnedMethod}
    (selected : call.selected? cx = some m) : m.method.name = call.name := by
  have named : ∀ {candidates : List OwnedMethod},
      select? cx candidates call.name call.args = some m → m.method.name = call.name := by
    intro candidates found
    have accepted := List.find?_some found
    simp only [Bool.and_eq_true, beq_iff_eq] at accepted
    exact accepted.1.1
  unfold Call.selected? at selected
  split at selected
  · split at selected
    · cases selected
    · exact named selected
  · exact named selected

/-- A call is of the type that the method returns that the checker has chosen. -/
theorem result_of_selected {cx : ClassContext} {m : OwnedMethod} {result : StaticType}
    (selected : call.selected? cx = some m) (chosen : call.callee? cx = some (params, result)) :
    result = .of m.method.returnType := by
  unfold Call.selected? at selected
  unfold Call.callee? at chosen
  split at selected
  · rename_i type on
    simp only [on, Check.callee?, StaticType.named?, Option.bind_some, selected] at chosen
    cases chosen
    rfl
  · rename_i above
    simp only [above, superCallee?, selected] at chosen
    split at chosen
    · cases chosen
    · cases chosen
      rfl

/-- If it has chosen no method of a type, a call of a method of every value is of its type. -/
theorem result_of_builtin {cx : ClassContext} {b : BuiltinMethod} {result : StaticType}
    (unselected : call.selected? cx = none) (chosen : call.callee? cx = some (params, result))
    (found : BuiltinMethod.ofAny? call.name call.args.length = some b) :
    result = .of b.returnType := by
  unfold Call.selected? at unselected
  unfold Call.callee? at chosen
  split at unselected
  · rename_i type on
    simp only [on, Check.callee?, StaticType.named?, Option.bind_some, unselected,
      BuiltinMethod.find?, BuiltinMethod.ofType?_of_ofAny? found, Option.none_or, found] at chosen
    rw [Option.ite_none_right_eq_some] at chosen
    cases chosen.2
    rfl
  · rename_i above
    simp only [above, superCallee?, unselected, found, Option.map_some] at chosen
    cases chosen
    rfl

/-- What is chosen above a class is native code, for one of the methods that its host type declares
of the name and arity if there are any, or a builtin method. -/
theorem choiceAbove?_cases {name : String} {args : List Value} {choice : Choice}
    (given : W.choiceAbove? c name args = some choice) :
    (∃ host code, W.store.inheritedNative? c name args.length = some (host, code) ∧
      ((host.findMethods name args.length = [] ∧ choice = .native host none) ∨
        ∃ m ∈ host.findMethods name args.length, choice = .native host (some m))) ∨
    W.store.inheritedNative? c name args.length = none ∧
      ∃ b, BuiltinMethod.ofAny? name args.length = some b ∧ choice = .builtin b := by
  unfold choiceAbove? at given
  split at given
  · rename_i host code found
    refine .inl ⟨host, code, found, ?_⟩
    split at given
    · rename_i undeclared
      exact .inl ⟨undeclared, (Option.some.inj given).symm⟩
    · obtain ⟨m, taken, rfl⟩ := Option.map_eq_some_iff.1 given
      exact .inr ⟨m, List.mem_of_find?_eq_some taken, rfl⟩
  · rename_i none_
    obtain ⟨b, found, rfl⟩ := Option.map_eq_some_iff.1 given
    exact .inr ⟨none_, b, found, rfl⟩

/-- What is chosen for an object is a method of its class, of the name and arity, or is chosen above
the class. -/
theorem choice?_cases {name : String} {args : List Value} {choice : Choice}
    (given : W.choice? c name args = some choice) :
    (∃ k ∈ c.code.methods, k.name = name ∧ k.params.length = args.length ∧ choice = .own k) ∨
      W.choiceAbove? c name args = some choice := by
  unfold choice? at given
  split at given
  · rename_i k taken found
    cases given
    obtain ⟨member, named, arity, _⟩ := LoadedClass.findMethod_some found
    exact .inl ⟨k, member, named, arity, rfl⟩
  · exact .inr given
  · cases given

/-- What runs may choose for a call is a method of the class of an object, of the call's name and
arity, or chosen above the class. -/
theorem Picks.cases {choice : Choice} (picks : W.Picks n call params c choice) :
    (∃ k type l, choice = .own k ∧ call.receiver = some type ∧ W.classes l = some c ∧
      k ∈ c.code.methods ∧ k.name = call.name ∧ k.params.length = call.args.length) ∨
    ∃ args, args.length = call.args.length ∧ W.choiceAbove? c call.name args = some choice := by
  have length : ∀ {args}, W.Passed params (call.args.map (·.type)) args →
      args.length = call.args.length := fun passed => passed.length_eq.trans (List.length_map _)
  cases picks with
  | above _ _ passed given => exact .inr ⟨_, length passed, given⟩
  | on on hc _ passed given =>
    rcases choice?_cases given with ⟨k, hk, named, arity, same⟩ | given
    · exact .inl ⟨k, _, _, same, on, hc, hk, named, arity.trans (length passed)⟩
    · exact .inr ⟨_, length passed, given⟩

/-- A method of a class is chosen for an object of the class only. -/
theorem Picks.own {k : Code.Method} (picks : W.Picks n call params c (.own k)) :
    ∃ type l, call.receiver = some type ∧ W.classes l = some c ∧ k ∈ c.code.methods ∧
      k.name = call.name := by
  rcases picks.cases with ⟨k', type, l, same, on, hc, hk, named, _⟩ | ⟨args, _, given⟩
  · cases same
    exact ⟨type, l, on, hc, hk, named⟩
  · rcases choiceAbove?_cases given with ⟨_, _, _, ⟨_, own⟩ | ⟨_, _, own⟩⟩ | ⟨_, _, _, own⟩
    all_goals cases own

/-- A builtin method is chosen if every value answers the call. -/
theorem Picks.builtin {b : BuiltinMethod} (picks : W.Picks n call params c (.builtin b)) :
    BuiltinMethod.ofAny? call.name call.args.length = some b := by
  rcases picks.cases with ⟨_, _, _, own, _⟩ | ⟨args, length, given⟩
  · cases own
  · rw [← length]
    rcases choiceAbove?_cases given with ⟨_, _, _, ⟨_, same⟩ | ⟨_, _, same⟩⟩ | ⟨_, b', found, same⟩
    · cases same
    · cases same
    · cases same
      exact found

/-! ### Choices that the checker has seen to -/

/-- The choice is the method that the checker has chosen, or one of the class that it has compared
with that method when it compiled the class. -/
def Vouched (W : World) (n : Nat) (call : Call) (c : LoadedClass) : Choice → Prop
  | .own k => ∃ m ∈ call.selected? (W.context n), k.params = m.method.params ∧
      (m.owner = c.code.name ∨
        m.method.visibility ≠ .hidden ∧ m ∈ (W.context c.id).inheritedMethods)
  | .native _ declared => ∃ m ∈ call.selected? (W.context n), declared = some m.method
  | .builtin _ => call.selected? (W.context n) = none

/-- Whatever else runs may choose for the calls in the bodies gives values of the types that the
checker has given the calls. -/
def Coherent (W : World) : Prop :=
  ∀ n d, W.classes n = some d → ∀ call ∈ W.calls n, ∀ params result,
    call.callee? (W.context n) = some (params, result) →
    ∀ c choice, W.Picks n call params c choice → ¬ W.Vouched n call c choice →
      W.Within choice.type result

/-- A method that fits another one gives values of the type of that. -/
theorem within_of_returnFits (linked : W.Linked) (hc : W.classes n = some c) {k : Code.Method}
    {t : TypeRef} (fits : (W.context n).returnFits k.returnType t = true) :
    W.Within (Choice.own k).type (.of t) := by
  intro v known holds
  simp only [Choice.type] at holds
  unfold ClassContext.returnFits at fits
  rw [Bool.or_eq_true, beq_iff_eq] at fits
  rcases fits with same | below
  · rw [same] at holds
    split at holds
    · rename_i isVoid
      rw [TypeRef.eq_void_of_isVoid isVoid]
      trivial
    · exact holds
  · split at below
    · rename_i a b returns
      rw [returns] at holds
      have assignable : (W.context n).isAssignableRef (.named a) (.named b) = true := by
        rw [ClassContext.isAssignableRef]
        exact below
      exact isInstanceOf_of_isAssignableRef linked hc known (by simp) assignable holds
    · cases below

/-- The types above a class have other names. -/
theorem owner_of_mem_ownedMethods (linked : W.Linked) (hc : W.classes n = some c)
    {superclass : String} {interfaces : List String} {m : OwnedMethod}
    (member : m ∈ ownedMethods (W.table.lineage superclass interfaces)) :
    m.owner ≠ c.code.name := by
  simp only [ownedMethods, List.mem_flatMap, List.mem_map] at member
  obtain ⟨host, above, method, _, rfl⟩ := member
  intro same
  have same : host.name = c.code.name := same
  have declared := TypeTable.lookup_of_mem_lineage above
  rw [same, (linked.fresh n c hc).2] at declared
  cases declared

/-- A method that is a class's own is chosen for a call in that class only, and no class but this
one stands below its name. -/
theorem eq_of_owner (linked : W.Linked) (hd : W.classes n = some d) {l : Nat}
    (hc : W.classes l = some c) {type : String} {m : OwnedMethod}
    (member : m ∈ (W.context n).methodsOf type) (owner : m.owner = c.code.name) :
    c = d ∧ m ∈ (W.context n).methods := by
  have above : ∀ {superclass interfaces},
      m ∉ ownedMethods ((W.context n).table.lineage superclass interfaces) := by
    intro superclass interfaces inherited
    rw [context_table] at inherited
    exact owner_of_mem_ownedMethods linked hc inherited owner
  unfold ClassContext.methodsOf at member
  split at member
  · rcases List.mem_append.1 member with own | inherited
    · have name : c.code.name = d.code.name := by
        rw [← owner, ← context_name linked hd]
        exact owner_of_mem_methods own
      obtain rfl := linked.distinct l n c d hc hd name
      exact ⟨Option.some.inj (hc.symm.trans hd), own⟩
    · exact absurd inherited above
  · exact absurd member above

/-- A class has or inherits every method that the checker finds for a type that the class conforms
to. -/
theorem owner_or_mem_inheritedMethods (linked : W.Linked) (stratified : W.table.Stratified)
    (hd : W.classes n = some d) {l : Nat} (hc : W.classes l = some c) {type : String}
    (conforms : c.isSubtypeOf W.tables type = true) {m : OwnedMethod}
    (member : m ∈ (W.context n).methodsOf type) :
    m.owner = c.code.name ∨ m ∈ (W.context l).inheritedMethods := by
  unfold ClassContext.methodsOf at member
  split at member
  · rename_i own
    rw [own, context_name linked hd] at conforms
    obtain rfl := linked.together.eq_of_isSubtypeOf_name ⟨l, hc⟩ ⟨n, hd⟩ conforms
    obtain rfl := linked.distinct l n c c hc hd rfl
    refine (List.mem_append.1 member).imp_left fun own => ?_
    rw [owner_of_mem_methods own]
    exact context_name linked hd
  · obtain ⟨host, above, isMethod⟩ := List.mem_flatMap.1 member
    rw [context_table] at above
    have known : W.table.lookup type ≠ none := fun unknown =>
      TypeTable.not_mem_lineage_unknown unknown above
    have noBase : type ≠ Builtin.object := by
      rintro rfl
      exact known (linked.regular.builtin_free _ (by decide))
    have other : type ≠ c.code.name := by
      rintro rfl
      exact known (linked.fresh l c hc).2
    obtain ⟨parent, direct, leads⟩ :=
      (LoadedClass.isSubtypeOf_iff_leads noBase other).1 conforms
    rw [(linked.compiled l c hc).2.1] at leads
    refine .inr (List.mem_flatMap.2 ⟨host, ?_, isMethod⟩)
    rw [context_table, context_superclass linked hc, context_interfaces linked hc]
    exact stratified.mem_lineage_above (W.accepted linked hc).isInterface_of_mem direct leads above

/-- Where interfaces stand below interfaces only, the methods of a class that have the parameters of
the one that the checker has chosen for a call are compared with it, unless that one is hidden. -/
theorem vouched_of_params (linked : W.Linked) (stratified : W.table.Stratified)
    (hd : W.classes n = some d) {l : Nat} (hc : W.classes l = some c) {type : String}
    (on : call.receiver = some type) (conforms : c.isSubtypeOf W.tables type = true)
    {m : OwnedMethod} (selected : call.selected? (W.context n) = some m) {k : Code.Method}
    (same : k.params = m.method.params) (seen : m.method.visibility ≠ .hidden) :
    W.Vouched n call c (.own k) := by
  refine ⟨m, selected, same, ?_⟩
  rw [(linked.compiled l c hc).1]
  exact (owner_or_mem_inheritedMethods linked stratified hd hc conforms
    (mem_methodsOf_of_selected selected on)).imp_right fun inherited => ⟨seen, inherited⟩

/-- What the checker has seen to gives values of the type that it has given the call. -/
theorem Picks.within (linked : W.Linked) (hd : W.classes n = some d) {result : StaticType}
    (chosen : call.callee? (W.context n) = some (params, result)) {choice : Choice}
    (picks : W.Picks n call params c choice) (vouched : W.Vouched n call c choice) :
    W.Within choice.type result := by
  cases choice with
  | own k =>
    obtain ⟨m, selected, same, which⟩ := vouched
    rw [result_of_selected selected chosen]
    obtain ⟨type, l, on, hc, hk, named⟩ := picks.own
    have name : k.name = m.method.name := named.trans (name_of_selected selected).symm
    have hcid : W.classes c.id = some c := by
      rw [(linked.compiled l c hc).1]
      exact hc
    have accepted := W.accepted linked hcid
    rcases which with owner | ⟨seen, inherited⟩
    · have declared := mem_methodsOf_of_selected selected on
      obtain ⟨rfl, own⟩ := eq_of_owner linked hd hc declared owner
      refine within_of_returnFits linked hd ?_
      have returns := (W.accepted linked hd).returnType_of_same own hk name same
      simp [returns, ClassContext.returnFits]
    · obtain ⟨decl, own, member, sameName, sameParams, returns⟩ :=
        accepted.exists_member_of_mem_code hk
      have overrides : m.sameParameters own = true := by
        simp [OwnedMethod.sameParameters, sameName, sameParams, name, same]
      refine within_of_returnFits linked hcid ?_
      rw [← returns]
      exact accepted.returnFits member inherited overrides seen
  | native host declared =>
    obtain ⟨m, selected, rfl⟩ := vouched
    rw [result_of_selected selected chosen]
    exact fun _ _ holds => holds
  | builtin b =>
    rw [result_of_builtin vouched chosen picks.builtin]
    exact fun _ _ holds => holds

/-- In a coherent world all calls serve. -/
theorem Coherent.serving (linked : W.Linked) (coherent : W.Coherent) : W.Serving := by
  intro n d hd call member params result chosen c choice picks
  by_cases vouched : W.Vouched n call c choice
  · exact picks.within linked hd chosen vouched
  · exact coherent n d hd call member params result chosen c choice picks vouched

end Classwright.World

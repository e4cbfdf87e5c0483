import Classwright.Proofs.Faithfulness

/-!
# Names of the fields that hold methods

A proxy has a field for each method of its interface. The field of a method that is alone with its
name is called by that name, and the fields of overloads are numbered behind a dollar sign. A dollar
sign may be part of a name, too: so a method that is alone with its name can have the field of a
numbered overload. Otherwise the fields differ from each other.
-/

namespace Classwright

namespace Delegation

/-- A method that is alone with its name is called as an overload of another name is numbered. -/
def Clashes (methods : List Method) : Prop :=
  ∃ alone ∈ methods, ∃ other ∈ methods, ∃ n < methods.countP (·.name == other.name),
    methods.countP (·.name == alone.name) = 1 ∧ methods.countP (·.name == other.name) ≠ 1 ∧
    alone.name = other.name ++ "$" ++ toString n

instance (methods : List Method) : Decidable (Clashes methods) :=
  inferInstanceAs (Decidable (∃ alone ∈ methods, ∃ other ∈ methods,
    ∃ n < methods.countP (·.name == other.name), methods.countP (·.name == alone.name) = 1 ∧
      methods.countP (·.name == other.name) ≠ 1 ∧ alone.name = other.name ++ "$" ++ toString n))

/-! ### Numbered names -/

theorem string_append_left_cancel {a b c : String} (same : a ++ b = a ++ c) : b = c := by
  have chars := congrArg String.toList same
  rw [String.toList_append, String.toList_append, List.append_cancel_left_eq] at chars
  exact String.toList_inj.1 chars

/-- A number behind a dollar sign can be told from what stands before it, as it has no such sign. -/
theorem numbered_inj {a b : String} {i j : Nat}
    (same : a ++ "$" ++ toString i = b ++ "$" ++ toString j) : a = b ∧ i = j := by
  have noSign : ∀ n : Nat, '$' ∉ (toString n).toList.reverse := by
    intro n member
    rw [List.mem_reverse, Source.toList_toString] at member
    exact absurd (Nat.isDigit_of_mem_toDigits (by decide) (by decide) member) (by decide)
  have chars := congrArg (fun s : String => s.toList.reverse) same
  simp only [String.toList_append, List.reverse_append, List.append_assoc,
    show "$".toList.reverse = ['$'] from rfl, List.singleton_append] at chars
  obtain ⟨digits, names⟩ : (toString i).toList.reverse = (toString j).toList.reverse ∧
      a.toList.reverse = b.toList.reverse := by
    rcases List.append_eq_append_iff.1 chars with ⟨t, long, rest⟩ | ⟨t, long, rest⟩
    · cases t with
      | nil => exact ⟨by rw [long, List.append_nil], (List.cons.inj rest).2⟩
      | cons c t =>
        refine absurd ?_ (noSign j)
        rw [long, ← (List.cons.inj rest).1]
        exact List.mem_append_right _ List.mem_cons_self
    · cases t with
      | nil => exact ⟨by rw [long, List.append_nil], (List.cons.inj rest).2.symm⟩
      | cons c t =>
        refine absurd ?_ (noSign i)
        rw [long, ← (List.cons.inj rest).1]
        exact List.mem_append_right _ List.mem_cons_self
  rw [List.reverse_inj, Source.toList_toString, Source.toList_toString] at digits
  refine ⟨String.toList_inj.1 (List.reverse_inj.1 names), ?_⟩
  rw [← Nat.ofDigitChars_ten_toDigits (n := i), digits, Nat.ofDigitChars_ten_toDigits]

variable {methods earlier : List Method} {m m' : Method} {contract : Descriptor}

theorem methodField_alone (alone : methods.countP (·.name == m.name) = 1) :
    methodField methods earlier m = "method_" ++ m.name := by
  rw [methodField, if_pos alone]

theorem methodField_numbered (overloaded : methods.countP (·.name == m.name) ≠ 1) :
    methodField methods earlier m
      = "method_" ++ (m.name ++ "$" ++ toString (earlier.countP (·.name == m.name))) := by
  rw [methodField, if_neg overloaded]
  simp only [String.append_assoc]

/-! ### Which fields have one name -/

/-- The fields are those of the methods, each with the methods before it. -/
theorem mem_fieldsFrom_iff {later : List Method} {f : String × Method} :
    f ∈ fieldsFrom methods earlier later ↔ ∃ before after, later = before ++ f.2 :: after ∧
      f.1 = methodField methods (earlier ++ before) f.2 := by
  induction later generalizing earlier with
  | nil => simp [fieldsFrom]
  | cons m later ih =>
    rw [fieldsFrom, List.mem_cons, ih]
    constructor
    · rintro (rfl | ⟨before, after, rfl, named⟩)
      · exact ⟨[], later, rfl, by rw [List.append_nil]⟩
      · exact ⟨m :: before, after, rfl, by rw [named, List.append_assoc]; rfl⟩
    · rintro ⟨before, after, split, named⟩
      cases before with
      | nil =>
        obtain ⟨rfl, rfl⟩ := List.cons.inj split
        rw [List.append_nil] at named
        exact .inl (Prod.ext named rfl)
      | cons first before =>
        obtain ⟨rfl, rfl⟩ := List.cons.inj split
        exact .inr ⟨before, after, rfl, by rw [named, List.append_cons]⟩

/-- Of an overloaded name there is a method of every number. -/
theorem exists_overload {name : String} {n : Nat} {ms : List Method}
    (below : n < ms.countP (·.name == name)) :
    ∃ before m after, ms = before ++ m :: after ∧ m.name = name ∧
      before.countP (·.name == name) = n := by
  induction ms generalizing n with
  | nil => simp at below
  | cons m ms ih =>
    by_cases named : m.name = name
    · cases n with
      | zero => exact ⟨[], m, ms, rfl, named, rfl⟩
      | succ n =>
        rw [List.countP_cons_of_pos (by simpa using named)] at below
        obtain ⟨before, m', after, rfl, named', count⟩ := ih (Nat.lt_of_succ_lt_succ below)
        refine ⟨m :: before, m', after, rfl, named', ?_⟩
        rw [List.countP_cons_of_pos (by simpa using named), count]
    · rw [List.countP_cons_of_neg (by simpa using named)] at below
      obtain ⟨before, m', after, rfl, named', count⟩ := ih below
      refine ⟨m :: before, m', after, rfl, named', ?_⟩
      rw [List.countP_cons_of_neg (by simpa using named), count]

theorem countP_lt_of_mem_behind {α : Type} {p : α → Bool} {before after : List α} {a : α}
    (holds : p a = true) : before.countP p < (before ++ a :: after).countP p := by
  rw [List.countP_append, List.countP_cons_of_pos holds]
  omega

/-- A method before another one has another field, unless there is a clash. -/
theorem methodField_ne (clear : ¬ Clashes methods) {mid after : List Method}
    (split : methods = earlier ++ m :: (mid ++ m' :: after)) :
    methodField methods earlier m ≠ methodField methods (earlier ++ m :: mid) m' := by
  have first : m ∈ methods := by simp [split]
  have second : m' ∈ methods := by simp [split]
  have numberedFirst : earlier.countP (·.name == m.name) < methods.countP (·.name == m.name) :=
    split ▸ countP_lt_of_mem_behind (beq_self_eq_true m.name)
  have numberedSecond : (earlier ++ m :: mid).countP (·.name == m'.name)
      < methods.countP (·.name == m'.name) := by
    have whole : methods = (earlier ++ m :: mid) ++ m' :: after := by simp [split]
    rw [whole]
    exact countP_lt_of_mem_behind (beq_self_eq_true m'.name)
  intro same
  by_cases alone : methods.countP (·.name == m.name) = 1 <;>
    by_cases alone' : methods.countP (·.name == m'.name) = 1
  · rw [methodField_alone alone, methodField_alone alone'] at same
    have named := string_append_left_cancel same
    rw [split, named, List.countP_append, List.countP_cons_of_pos (by simp [named]),
      List.countP_append, List.countP_cons_of_pos (by simp)] at alone
    omega
  · rw [methodField_alone alone, methodField_numbered alone'] at same
    exact clear ⟨m, first, m', second, _, numberedSecond, alone, alone',
      string_append_left_cancel same⟩
  · rw [methodField_numbered alone, methodField_alone alone'] at same
    exact clear ⟨m', second, m, first, _, numberedFirst, alone', alone,
      (string_append_left_cancel same).symm⟩
  · rw [methodField_numbered alone, methodField_numbered alone'] at same
    obtain ⟨named, numbers⟩ := numbered_inj (string_append_left_cancel same)
    rw [named, List.countP_append, List.countP_cons_of_pos (by simp [named])] at numbers
    omega

theorem nodup_fieldsFrom (clear : ¬ Clashes methods) {later : List Method}
    (split : methods = earlier ++ later) :
    ((fieldsFrom methods earlier later).map (·.1)).Nodup := by
  induction later generalizing earlier with
  | nil => exact List.nodup_nil
  | cons m later ih =>
    rw [fieldsFrom, List.map_cons, List.nodup_cons]
    refine ⟨fun repeated => ?_, ih (by rw [split, List.append_cons])⟩
    obtain ⟨f, member, same⟩ := List.mem_map.1 repeated
    obtain ⟨mid, after, rfl, named⟩ := mem_fieldsFrom_iff.1 member
    refine methodField_ne clear split ?_
    rw [List.append_cons, ← named]
    exact same.symm

/-- A clash gives two methods one field. -/
theorem not_nodup_of_clashes (clash : Clashes contract.methods) :
    ¬ ((methodFields contract).map (·.1)).Nodup := by
  intro distinct
  obtain ⟨alone, member, other, _, n, below, single, overloaded, named⟩ := clash
  obtain ⟨before, m, after, split, same, count⟩ := exists_overload below
  obtain ⟨before', after', split'⟩ := List.append_of_mem member
  have numberedField : ("method_" ++ alone.name, m) ∈ methodFields contract := by
    refine mem_fieldsFrom_iff.2 ⟨before, after, split, ?_⟩
    dsimp only
    rw [methodField_numbered (by rwa [same]), List.nil_append, same, count, named]
  have ownField : ("method_" ++ alone.name, alone) ∈ methodFields contract :=
    mem_fieldsFrom_iff.2 ⟨before', after', split', (methodField_alone single).symm⟩
  have one := (Prod.mk.inj (List.inj_on_of_nodup_map distinct numberedField ownField rfl)).2
  rw [one] at same
  rw [same] at single
  exact overloaded single

theorem nodup_methodFields_iff :
    ((methodFields contract).map (·.1)).Nodup ↔ ¬ Clashes contract.methods :=
  ⟨fun distinct clash => not_nodup_of_clashes clash distinct,
    fun clear => nodup_fieldsFrom clear (List.nil_append _).symm⟩

/-- No method has the field of the handler or that of the interface. -/
theorem ne_of_mem_methodFields {f : String × Method} (member : f ∈ methodFields contract) :
    f.1 ≠ handlerField ∧ f.1 ≠ interfaceField := by
  obtain ⟨earlier, named⟩ := methodField_of_mem member
  have first := head_methodField contract.methods earlier f.2
  rw [← named] at first
  constructor
  · intro same
    rw [same] at first
    exact absurd first (by decide)
  · intro same
    rw [same] at first
    exact absurd first (by decide)

theorem nodup_proxyFields_iff (contract : Descriptor) (handler : Nat) :
    ((proxyFields contract handler).map (·.1)).Nodup ↔ ¬ Clashes contract.methods := by
  have names : (proxyFields contract handler).map (·.1)
      = handlerField :: interfaceField :: (methodFields contract).map (·.1) := by
    simp [proxyFields, Function.comp_def]
  rw [names, List.nodup_cons, List.nodup_cons, ← nodup_methodFields_iff]
  refine ⟨fun distinct => distinct.2.2, fun distinct => ⟨?_, ?_, distinct⟩⟩
  · intro member
    rcases List.mem_cons.1 member with same | member
    · exact absurd same (by decide)
    · obtain ⟨f, there, same⟩ := List.mem_map.1 member
      exact (ne_of_mem_methodFields there).1 same
  · intro member
    obtain ⟨f, there, same⟩ := List.mem_map.1 member
    exact (ne_of_mem_methodFields there).2 same

end Delegation

namespace Proxy

open Delegation

variable {p : Proxy} {s : Store}

theorem Intact.names (intact : p.Intact s) : p.object.cls.code.fields.map (·.name)
    = (proxyFields p.contract p.handler).map (·.1) := by
  have own : (contents p.contract p.handler).map (·.1) = (code p.contract).fields := contents_fields
  rw [intact.1.code, ← own, ← contents_patches]
  simp [Function.comp_def]

theorem Intact.nodup (intact : p.Intact s) :
    (p.object.cls.code.fields.map (·.name)).Nodup := by
  rw [intact.1.code, Delegation.code, List.map_map]
  exact intact.1.distinct

/-- Every field of a proxy is found by its name and holds what it was filled with. -/
theorem Intact.holds (intact : p.Intact s) {f : String × Value}
    (member : f ∈ proxyFields p.contract p.handler) :
    ∃ handle, p.object.cls.declaredField f.1 = .ok handle ∧
      (s.fields p.object)[handle.slot]? = some f.2 := by
  rw [← contents_patches, List.mem_map] at member
  obtain ⟨content, member, rfl⟩ := member
  obtain ⟨before, after, split⟩ := List.append_of_mem member
  have fields : p.object.cls.code.fields
      = before.map (·.1) ++ content.1 :: after.map (·.1) := by
    have own : (contents p.contract p.handler).map (·.1) = (code p.contract).fields :=
      contents_fields
    rw [intact.1.code, ← own, split]
    simp
  have new : ∀ g ∈ before.map (·.1), g.name ≠ content.1.name := by
    intro g there same
    have distinct := intact.nodup
    rw [fields, List.map_append, List.nodup_append] at distinct
    exact distinct.2.2 g.name (List.mem_map_of_mem there) content.1.name (by simp) same
  refine ⟨_, declaredField_eq fields new, ?_⟩
  rw [intact.2, ← contents_values, split]
  simp

end Proxy

open Delegation in
/-- There is a field for each method, in the order of declaration, none of them that of the handler
or of the interface. They differ from each other just if no method that is alone with its name is
called as an overload of another name is numbered. A proxy is only ever made of an interface where
that is so; then its class has just these fields, each found by its name, and however a host goes on
the field of a method holds the descriptor of this method. -/
theorem method_fields_distinct (contract : Descriptor) (handler : Nat) :
    (methodFields contract).map (·.2) = contract.methods ∧
    (∀ f ∈ methodFields contract, f.1 ≠ handlerField ∧ f.1 ≠ interfaceField) ∧
    (((methodFields contract).map (·.1)).Nodup ↔ ¬ Clashes contract.methods) ∧
    (((proxyFields contract handler).map (·.1)).Nodup ↔ ¬ Clashes contract.methods) ∧
    ∀ W builders s made, World.Proxied W builders s made →
      ∀ o, ⟨contract, handler, o⟩ ∈ made → Legal contract → ¬ Clashes contract.methods ∧
        o.cls.code.fields.map (·.name) = (proxyFields contract handler).map (·.1) ∧
        ∀ f ∈ proxyFields contract handler, ∃ handle,
          o.cls.declaredField f.1 = .ok handle ∧
          (s.fields o)[handle.slot]? = some f.2 := by
  refine ⟨methodFields_methods contract, fun _ => ne_of_mem_methodFields, nodup_methodFields_iff,
    nodup_proxyFields_iff contract handler, ?_⟩
  intro W builders s made history o member legal
  have intact := history.keeps.intact ⟨contract, handler, o⟩ member legal
  refine ⟨?_, intact.names, fun f => intact.holds⟩
  have names := intact.nodup
  rw [intact.names] at names
  exact (nodup_proxyFields_iff contract handler).1 names

namespace Sample

/-- Two overloads, and a method that is called as the first of them is numbered. -/
def priced : Descriptor where
  name := "S"
  kind := .interface
  methods := [{ name := "a" }, { name := "a", params := [.int] }, { name := "a$0" }]

/-- Legal names are not enough for the fields to differ. -/
theorem overload_clash : Delegation.Legal priced ∧
    (Delegation.methodFields priced).map (·.1) = ["method_a$0", "method_a$1", "method_a$0"] ∧
    ¬ ((Delegation.methodFields priced).map (·.1)).Nodup :=
  ⟨⟨by decide +kernel, by decide +kernel, by decide +kernel⟩, by decide +kernel,
    Delegation.not_nodup_of_clashes (by decide +kernel)⟩

/-- The fields of three overloads. -/
theorem sink_fields : ∃ W builders s o, World.Proxied W builders s [⟨sink, 0, o⟩] ∧
    Delegation.Legal sink ∧ ¬ Delegation.Clashes sink.methods ∧
    ((Delegation.methodFields sink).map (·.1)).Nodup ∧
    ∃ handle, o.cls.declaredField "method_f$1" = .ok handle ∧
      (s.fields o)[handle.slot]? = some (.method ofLong) := by
  obtain ⟨o, q, made, _⟩ := augment_of_plays rfl plays_runs.1
  obtain ⟨W, builders, history⟩ := history_of_augment made
  obtain ⟨_, _, distinct, _, made⟩ := method_fields_distinct sink 0
  obtain ⟨clear, _, holds⟩ := made W builders q.2 _ history o (by simp) sink_legal
  have second : ("method_f$1", ofLong) ∈ Delegation.methodFields sink := by decide +kernel
  exact ⟨W, builders, q.2, o, history, sink_legal, clear, distinct.2 clear,
    holds _ (List.mem_append_right _ (List.mem_map_of_mem second))⟩

end Sample

end Classwright

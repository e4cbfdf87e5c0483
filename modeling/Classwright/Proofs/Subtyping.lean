import Classwright.Type.Table

/-!
# Subtyping as reachability

The walk along parents finds what a chain of declared types leads to, and nothing else, and so does
the search for one type, which ends early and looks at no type twice. So standing below is
transitive wherever the type in the middle is not the universal base.
-/

namespace Classwright.TypeTable

variable {t : TypeTable} {next : Descriptor → List String}

theorem name_of_lookup {name : String} {d : Descriptor} (found : t.lookup name = some d) :
    d.name = name := by
  simpa using List.find?_some found

theorem mem_of_lookup {name : String} {d : Descriptor} (found : t.lookup name = some d) :
    d ∈ t.types :=
  List.mem_of_find?_eq_some found

theorem walk_skip {name : String} {visited queue : List String}
    (met : visited.contains name = true) :
    t.walk next visited (name :: queue) = t.walk next visited queue := by
  rw [walk, dif_pos met]

theorem walk_unknown {name : String} {visited queue : List String}
    (unknown : t.lookup name = none) :
    t.walk next visited (name :: queue) = t.walk next visited queue := by
  rw [walk]
  split
  · rfl
  · split
    · rfl
    · rename_i d found
      rw [unknown] at found
      cases found

theorem walk_found {name : String} {d : Descriptor} {visited queue : List String}
    (new : visited.contains name = false) (found : t.lookup name = some d) :
    t.walk next visited (name :: queue)
      = d :: t.walk next (name :: visited) (queue ++ next d) := by
  rw [walk, dif_neg (by rw [new]; exact Bool.false_ne_true)]
  split
  · rename_i unknown
    rw [unknown] at found
    cases found
  · rename_i e found'
    have same : d = e := Option.some.inj (found.symm.trans found')
    rw [same]

/-- Every walk is one of the three equations above, so that facts about it go by this induction. -/
theorem walk_induction (motive : List String → List String → List Descriptor → Prop)
    (nil : ∀ visited, motive visited [] [])
    (pass : ∀ visited name queue, visited.contains name = true ∨ t.lookup name = none →
      motive visited queue (t.walk next visited queue) →
      motive visited (name :: queue) (t.walk next visited queue))
    (meet : ∀ visited name queue d, visited.contains name = false → t.lookup name = some d →
      motive (name :: visited) (queue ++ next d)
        (t.walk next (name :: visited) (queue ++ next d)) →
      motive visited (name :: queue)
        (d :: t.walk next (name :: visited) (queue ++ next d)))
    (visited queue : List String) : motive visited queue (t.walk next visited queue) := by
  fun_induction walk t next visited queue with
  | case1 visited => exact nil visited
  | case2 visited name queue met ih => exact pass visited name queue (.inl met) ih
  | case3 visited name queue _ unknown ih => exact pass visited name queue (.inr unknown) ih
  | case4 visited name queue new d found _ ih =>
    exact meet visited name queue d (Bool.eq_false_iff.2 new) found ih

/-- A name leads to another along `next` through declared types. -/
inductive Leads (t : TypeTable) (next : Descriptor → List String) : String → String → Prop
  | refl (name : String) : Leads t next name name
  | step {name middle last : String} {d : Descriptor} : t.lookup name = some d →
      middle ∈ next d → Leads t next middle last → Leads t next name last

namespace Leads

theorem trans {a b c : String} (first : Leads t next a b) (second : Leads t next b c) :
    Leads t next a c := by
  induction first with
  | refl => exact second
  | step found member _ ih => exact .step found member (ih second)

theorem single {a b : String} {d : Descriptor} (found : t.lookup a = some d) (member : b ∈ next d) :
    Leads t next a b :=
  .step found member (.refl b)

/-- A name that is not declared leads nowhere else. -/
theorem eq_of_unknown {a b : String} (unknown : t.lookup a = none) (leads : Leads t next a b) :
    a = b := by
  cases leads with
  | refl => rfl
  | step found _ _ => rw [unknown] at found; cases found

/-- The last link of a chain that is more than one name. -/
theorem last_link {a b : String} (leads : Leads t next a b) :
    a = b ∨ ∃ m d, Leads t next a m ∧ t.lookup m = some d ∧ b ∈ next d := by
  induction leads with
  | refl name => exact .inl rfl
  | step found member _ ih =>
    rcases ih with rfl | ⟨m, e, leads, found', member'⟩
    · exact .inr ⟨_, _, .refl _, found, member⟩
    · exact .inr ⟨m, e, .step found member leads, found', member'⟩

end Leads

/-- The walk meets declared types that the queue leads to. -/
theorem leads_of_mem_walk {visited queue : List String} {d : Descriptor}
    (met : d ∈ t.walk next visited queue) :
    t.lookup d.name = some d ∧ ∃ n ∈ queue, Leads t next n d.name := by
  refine @walk_induction t next
    (fun _ queue walk => d ∈ walk → t.lookup d.name = some d ∧ ∃ n ∈ queue, Leads t next n d.name)
    ?_ ?_ ?_ visited queue met
  · intro _ met
    cases met
  · intro _ name queue _ ih met
    obtain ⟨declared, n, hn, leads⟩ := ih met
    exact ⟨declared, n, List.mem_cons_of_mem _ hn, leads⟩
  · intro _ name queue e _ found ih met
    have hname := name_of_lookup found
    rcases List.mem_cons.1 met with rfl | met
    · exact ⟨hname ▸ found, name, List.mem_cons_self, hname ▸ .refl _⟩
    · obtain ⟨declared, n, hn, leads⟩ := ih met
      rcases List.mem_append.1 hn with hn | hn
      · exact ⟨declared, n, List.mem_cons_of_mem _ hn, leads⟩
      · exact ⟨declared, name, List.mem_cons_self, .step found hn leads⟩

theorem mem_walk_of_queue {visited queue : List String} {name : String} {d : Descriptor}
    (queued : name ∈ queue) (new : name ∉ visited) (found : t.lookup name = some d) :
    d ∈ t.walk next visited queue := by
  refine @walk_induction t next
    (fun visited queue walk => name ∈ queue → name ∉ visited → d ∈ walk)
    ?_ ?_ ?_ visited queue queued new
  · intro _ queued
    cases queued
  · intro visited other queue passed ih queued new
    have different : name ≠ other := by
      rintro rfl
      rcases passed with met | unknown
      · exact new (by simpa using met)
      · rw [unknown] at found
        cases found
    exact ih ((List.mem_cons.1 queued).resolve_left different) new
  · intro visited other queue e _ found' ih queued new
    by_cases same : name = other
    · subst same
      have : d = e := Option.some.inj (found.symm.trans found')
      exact this ▸ List.mem_cons_self
    · have queued := (List.mem_cons.1 queued).resolve_left same
      exact List.mem_cons_of_mem _
        (ih (List.mem_append_left _ queued) (by simp [same, new]))

/-- A walk is closed under `next`, but for what had been met before. -/
theorem mem_walk_next {visited queue : List String} {d e : Descriptor} {name : String}
    (met : d ∈ t.walk next visited queue) (member : name ∈ next d) (new : name ∉ visited)
    (found : t.lookup name = some e) : e ∈ t.walk next visited queue := by
  refine @walk_induction t next
    (fun visited _ walk => d ∈ walk → name ∉ visited → e ∈ walk)
    ?_ ?_ ?_ visited queue met new
  · intro _ met
    cases met
  · intro _ _ _ _ ih met new
    exact ih met new
  · intro visited other queue d' _ found' ih met new
    by_cases same : name = other
    · subst same
      have : e = d' := Option.some.inj (found.symm.trans found')
      exact this ▸ List.mem_cons_self
    · have new' : name ∉ other :: visited := by simp [same, new]
      rcases List.mem_cons.1 met with rfl | met
      · exact List.mem_cons_of_mem _
          (mem_walk_of_queue (List.mem_append_right _ member) new' found)
      · exact List.mem_cons_of_mem _ (ih met new')

/-- What a type that has been met leads to is met, too. -/
theorem mem_walk_of_leads {queue : List String} {d e : Descriptor} {name : String}
    (met : d ∈ t.walk next [] queue) (declared : t.lookup d.name = some d)
    (leads : Leads t next d.name name) (found : t.lookup name = some e) :
    e ∈ t.walk next [] queue := by
  generalize hstart : d.name = start at leads
  induction leads generalizing d with
  | refl =>
    have same : d = e := Option.some.inj (declared.symm.trans (hstart ▸ found))
    exact same ▸ met
  | step found' member rest ih =>
    have same := Option.some.inj (declared.symm.trans (hstart ▸ found'))
    subst same
    cases rest with
    | refl => exact mem_walk_next met member List.not_mem_nil found
    | step found'' member' rest' =>
      have met' := mem_walk_next met member List.not_mem_nil found''
      have hname := name_of_lookup found''
      exact ih met' (hname ▸ found'') found hname

/-- A walk from names that are all new meets every declared type that they lead to. -/
theorem mem_walk_iff {queue : List String} {d : Descriptor} :
    d ∈ t.walk next [] queue
      ↔ t.lookup d.name = some d ∧ ∃ n ∈ queue, Leads t next n d.name := by
  constructor
  · exact leads_of_mem_walk
  · rintro ⟨declared, n, queued, leads⟩
    cases leads with
    | refl => exact mem_walk_of_queue queued List.not_mem_nil declared
    | step found member rest =>
      have met := @mem_walk_of_queue t next [] _ _ _ queued List.not_mem_nil found
      have hname := name_of_lookup found
      subst hname
      exact mem_walk_of_leads met found (.step found member rest) declared

/-- A walk meets every name once, and none that has been met before. -/
theorem nodup_walk (visited queue : List String) :
    ((t.walk next visited queue).map (·.name)).Nodup ∧
      ∀ d ∈ t.walk next visited queue, d.name ∉ visited := by
  refine walk_induction (fun visited _ walk =>
    (walk.map (·.name)).Nodup ∧ ∀ d ∈ walk, d.name ∉ visited) ?_ ?_ ?_ visited queue
  · exact fun _ => ⟨List.nodup_nil, List.forall_mem_nil _⟩
  · exact fun _ _ _ _ ih => ih
  · intro visited name queue d new found ih
    have named := name_of_lookup found
    rw [List.map_cons, List.nodup_cons]
    refine ⟨⟨fun again => ?_, ih.1⟩, fun e member old => ?_⟩
    · obtain ⟨e, member, same⟩ := List.mem_map.1 again
      exact ih.2 e member (by simp [same, named])
    · rcases List.mem_cons.1 member with rfl | member
      · rw [named] at old
        exact Bool.eq_false_iff.1 new (by simpa using old)
      · exact ih.2 e member (List.mem_cons_of_mem _ old)

/-! ### The search for one type -/

/-- The search passes over what has been met, looks for parents of what has not, and ends where it
has come to the type. -/
theorem comesTo_induction (sup : String) (motive : List String → List String → Bool → Prop)
    (nil : ∀ visited, motive visited [] false)
    (found : ∀ visited name stack, name = sup ∨ sup = Builtin.object →
      motive visited (name :: stack) true)
    (pass : ∀ visited name stack, name ∈ visited →
      motive visited stack (t.comesTo sup visited stack) →
      motive visited (name :: stack) (t.comesTo sup visited stack))
    (unknown : ∀ visited name stack, name ≠ sup → t.lookup name = none →
      motive (name :: visited) stack (t.comesTo sup (name :: visited) stack) →
      motive visited (name :: stack) (t.comesTo sup (name :: visited) stack))
    (meet : ∀ visited name stack d, name ≠ sup → t.lookup name = some d →
      motive (name :: visited) (d.parents ++ stack)
        (t.comesTo sup (name :: visited) (d.parents ++ stack)) →
      motive visited (name :: stack) (t.comesTo sup (name :: visited) (d.parents ++ stack)))
    (visited stack : List String) : motive visited stack (t.comesTo sup visited stack) := by
  fun_induction comesTo t sup visited stack with
  | case1 visited => exact nil visited
  | case2 visited name stack there =>
    exact found visited name stack (by simpa only [Bool.or_eq_true, beq_iff_eq] using there)
  | case3 visited name stack _ met ih =>
    exact pass visited name stack (by simpa using met) ih
  | case4 visited name stack other _ none ih =>
    exact unknown visited name stack (fun same => other (by simp [same])) none ih
  | case5 visited name stack other _ d declared _ ih =>
    exact meet visited name stack d (fun same => other (by simp [same])) declared ih

/-- What the search comes to is above one of the names that it starts from. -/
theorem leads_of_comesTo {sup : String} {visited stack : List String}
    (comes : t.comesTo sup visited stack = true) :
    sup = Builtin.object ∨ ∃ n ∈ stack, Leads t Descriptor.parents n sup := by
  refine @comesTo_induction t sup (fun _ stack comes => comes = true →
    sup = Builtin.object ∨ ∃ n ∈ stack, Leads t Descriptor.parents n sup)
    ?_ ?_ ?_ ?_ ?_ visited stack comes
  · exact fun _ nothing => absurd nothing Bool.false_ne_true
  · rintro _ name _ (rfl | base) _
    · exact .inr ⟨name, List.mem_cons_self, .refl name⟩
    · exact .inl base
  · intro _ _ _ _ ih comes
    exact (ih comes).imp_right fun ⟨n, member, leads⟩ => ⟨n, List.mem_cons_of_mem _ member, leads⟩
  · intro _ _ _ _ _ ih comes
    exact (ih comes).imp_right fun ⟨n, member, leads⟩ => ⟨n, List.mem_cons_of_mem _ member, leads⟩
  · intro _ name _ d _ declared ih comes
    refine (ih comes).imp_right fun ⟨n, member, leads⟩ => ?_
    rcases List.mem_append.1 member with parent | member
    · exact ⟨name, List.mem_cons_self, .step declared parent leads⟩
    · exact ⟨n, List.mem_cons_of_mem _ member, leads⟩

/-- The names that a search has met in the end, if it has not come to the type: with each name they
hold its parents, save those of the names that it was not to look at. -/
structure Exhausts (t : TypeTable) (sup : String) (visited stack met : List String) : Prop where
  old : visited ⊆ met
  stacked : stack ⊆ met
  other : ∀ n ∈ met, n ∉ visited → n ≠ sup
  closed : ∀ n ∈ met, n ∉ visited → ∀ d, t.lookup n = some d → d.parents ⊆ met

/-- One name more has been met, and with it its parents, which are searched next. -/
theorem Exhausts.meet {sup name : String} {visited stack next met : List String} (new : name ≠ sup)
    (parents : ∀ d, t.lookup name = some d → d.parents ⊆ next) (rest : stack ⊆ next)
    (exhausts : Exhausts t sup (name :: visited) next met) :
    Exhausts t sup visited (name :: stack) met where
  old := List.Subset.trans (List.subset_cons_self _ _) exhausts.old
  stacked := List.cons_subset.2
    ⟨exhausts.old List.mem_cons_self, List.Subset.trans rest exhausts.stacked⟩
  other n member unvisited := by
    by_cases same : n = name
    · exact same ▸ new
    · exact exhausts.other n member (by simp [same, unvisited])
  closed n member unvisited d declared := by
    by_cases same : n = name
    · exact List.Subset.trans (parents d (same ▸ declared)) exhausts.stacked
    · exact exhausts.closed n member (by simp [same, unvisited]) d declared

/-- A search in vain has met everything above. -/
theorem exhausts_of_comesTo {sup : String} {visited stack : List String}
    (vain : t.comesTo sup visited stack = false) : ∃ met, Exhausts t sup visited stack met := by
  refine @comesTo_induction t sup (fun visited stack comes => comes = false →
    ∃ met, Exhausts t sup visited stack met) ?_ ?_ ?_ ?_ ?_ visited stack vain
  · intro visited _
    exact ⟨visited, List.Subset.refl _, List.nil_subset _, fun n member new => absurd member new,
      fun n member new => absurd member new⟩
  · exact fun _ _ _ _ found => absurd found.symm Bool.false_ne_true
  · intro visited name stack there ih vain
    obtain ⟨met, exhausts⟩ := ih vain
    exact ⟨met, exhausts.old, List.cons_subset.2 ⟨exhausts.old there, exhausts.stacked⟩,
      exhausts.other, exhausts.closed⟩
  · intro visited name stack other unknown ih vain
    obtain ⟨met, exhausts⟩ := ih vain
    refine ⟨met, exhausts.meet other (fun d declared => ?_) (List.Subset.refl _)⟩
    rw [unknown] at declared
    cases declared
  · intro visited name stack d other declared ih vain
    obtain ⟨met, exhausts⟩ := ih vain
    refine ⟨met, exhausts.meet other (fun e declared' => ?_) (List.subset_append_right _ _)⟩
    have same : d = e := Option.some.inj (declared.symm.trans declared')
    exact same ▸ List.subset_append_left _ _

/-- What is closed under parents holds all that its members stand below. -/
theorem Leads.mem_of_closed {a b : String} {met : List String}
    (leads : Leads t next a b) (start : a ∈ met)
    (closed : ∀ n ∈ met, ∀ d, t.lookup n = some d → next d ⊆ met) : b ∈ met := by
  induction leads with
  | refl => exact start
  | step found member _ ih => exact ih (closed _ start _ found member)

/-- Standing below is being the type, the universal base, or what a chain of parents leads to. -/
theorem isSubtype_eq_true_iff {sub sup : String} :
    t.isSubtype sub sup = true
      ↔ sup = Builtin.object ∨ Leads t Descriptor.parents sub sup := by
  constructor
  · intro comes
    refine (leads_of_comesTo comes).imp_right fun ⟨n, member, leads⟩ => ?_
    rwa [List.mem_singleton.1 member] at leads
  · intro above
    refine Bool.of_not_eq_false fun vain => ?_
    rcases above with base | leads
    · rw [isSubtype, comesTo, base, if_pos (by simp)] at vain
      cases vain
    · obtain ⟨met, exhausts⟩ := exhausts_of_comesTo vain
      have there := leads.mem_of_closed (exhausts.stacked List.mem_cons_self)
        fun n member => exhausts.closed n member List.not_mem_nil
      exact exhausts.other sup there List.not_mem_nil rfl

theorem isSubtype_refl (t : TypeTable) (name : String) : t.isSubtype name name = true :=
  isSubtype_eq_true_iff.2 (.inr (.refl name))

theorem isSubtype_object (t : TypeTable) (name : String) : t.isSubtype name Builtin.object = true :=
  isSubtype_eq_true_iff.2 (.inl rfl)

/-- Only itself and the universal base are above a name that is not declared. -/
theorem eq_of_isSubtype_unknown {sub sup : String} (unknown : t.lookup sub = none)
    (below : t.isSubtype sub sup = true) : sup = Builtin.object ∨ sub = sup :=
  (isSubtype_eq_true_iff.1 below).imp_right fun leads => leads.eq_of_unknown unknown

/-- Whoever stands below a type stands below what that type stands below, if the universal base is
not declared as a type with parents of its own. -/
theorem isSubtype_trans {a b c : String} (base : t.lookup Builtin.object = none)
    (first : t.isSubtype a b = true) (second : t.isSubtype b c = true) :
    t.isSubtype a c = true := by
  rcases isSubtype_eq_true_iff.1 first with rfl | leads
  · rcases eq_of_isSubtype_unknown base second with rfl | rfl
    · exact isSubtype_object t a
    · exact isSubtype_object t a
  · rcases isSubtype_eq_true_iff.1 second with same | leads'
    · exact isSubtype_eq_true_iff.2 (.inl same)
    · exact isSubtype_eq_true_iff.2 (.inr (leads.trans leads'))

end Classwright.TypeTable

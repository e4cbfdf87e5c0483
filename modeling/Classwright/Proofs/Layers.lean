import Classwright.Proofs.Subtyping
import Mathlib.Data.List.Pairwise
import Mathlib.Data.Nat.Find
import Mathlib.Logic.Function.Iterate
import Mathlib.Order.Bounds.Basic

/-!
# The walk goes layer by layer

The walk takes one name at a time from the front of its queue and adds what the name leads to at the
end. So it deals with all names that are as many links away from the roots before it comes to one
that is farther away: in front of a layer the queue holds names of this layer only, and what has
been met are the declared types of the layers before it. The walk meets each declared type where its
name comes first, names that are not declared drop out, and the loop is over when each root and each
name that a met type gives has been taken from the queue once.
-/

namespace Classwright

namespace TypeTable

variable {t : TypeTable} {next : Descriptor → List String} {roots visited queue : List String}
  {name : String} {d : Descriptor} {n : Nat}

/-- The names that as many links lead to from the roots, each link from a declared type. -/
def layer (t : TypeTable) (next : Descriptor → List String) (roots : List String) :
    Nat → List String
  | 0 => roots
  | n + 1 => ((t.layer next roots n).filterMap t.lookup).flatMap next

/-- The fewest links that lead from a root to the name. -/
def Distance (t : TypeTable) (next : Descriptor → List String) (roots : List String)
    (name : String) (n : Nat) : Prop :=
  IsLeast {m | name ∈ t.layer next roots m} n

theorem contains_of_lookup (found : t.lookup name = some d) : t.contains name = true := by
  rw [contains, found, Option.isSome_some]

theorem mem_layer_succ : name ∈ t.layer next roots (n + 1) ↔
    ∃ middle ∈ t.layer next roots n, ∃ d, t.lookup middle = some d ∧ name ∈ next d := by
  rw [layer, List.mem_flatMap]
  constructor
  · rintro ⟨d, there, member⟩
    obtain ⟨middle, there, found⟩ := List.mem_filterMap.1 there
    exact ⟨middle, there, d, found, member⟩
  · rintro ⟨middle, there, d, found, member⟩
    exact ⟨d, List.mem_filterMap.2 ⟨middle, there, found⟩, member⟩

theorem exists_layer_of_leads {start : String} (leads : Leads t next start name)
    (there : start ∈ t.layer next roots n) : ∃ m, name ∈ t.layer next roots m := by
  induction leads generalizing n with
  | refl => exact ⟨n, there⟩
  | step found member _ ih => exact ih (mem_layer_succ.2 ⟨_, there, _, found, member⟩)

/-- The layers hold what the roots lead to. -/
theorem exists_layer_iff :
    (∃ n, name ∈ t.layer next roots n) ↔ ∃ root ∈ roots, Leads t next root name := by
  constructor
  · rintro ⟨n, there⟩
    induction n generalizing name with
    | zero => exact ⟨name, there, .refl name⟩
    | succ n ih =>
      obtain ⟨middle, before, d, found, member⟩ := mem_layer_succ.1 there
      obtain ⟨root, isRoot, leads⟩ := ih before
      exact ⟨root, isRoot, leads.trans (.single found member)⟩
  · rintro ⟨root, isRoot, leads⟩
    exact exists_layer_of_leads (n := 0) leads isRoot

theorem exists_distance (there : name ∈ t.layer next roots n) :
    ∃ m, t.Distance next roots name m := by
  have somewhere : ∃ m, name ∈ t.layer next roots m := ⟨n, there⟩
  exact ⟨Nat.find somewhere, Nat.find_spec somewhere, fun _ => Nat.find_min' somewhere⟩

/-! ### What a queue holds that is new -/

/-- The declared types that have not been met, each where the queue first names it. -/
def fresh (t : TypeTable) (visited queue : List String) : List Descriptor :=
  (queue.filter fun n => t.contains n && !visited.contains n).eraseDups.filterMap t.lookup

@[simp]
theorem fresh_nil (t : TypeTable) (visited : List String) : t.fresh visited [] = [] := rfl

theorem fresh_pass (passed : visited.contains name = true ∨ t.lookup name = none) :
    t.fresh visited (name :: queue) = t.fresh visited queue := by
  have out : (t.contains name && !visited.contains name) = false := by
    rcases passed with met | unknown
    · rw [met, Bool.not_true, Bool.and_false]
    · rw [contains, unknown, Option.isSome_none, Bool.false_and]
  rw [fresh, List.filter_cons, if_neg (by rw [out]; exact Bool.false_ne_true), fresh]

theorem fresh_meet (new : visited.contains name = false) (found : t.lookup name = some d) :
    t.fresh visited (name :: queue) = d :: t.fresh (name :: visited) queue := by
  have in_ : (t.contains name && !visited.contains name) = true := by
    rw [contains_of_lookup found, new]
    rfl
  -- the names equal to the first one are those that it adds to the visited ones
  have rest : (queue.filter fun n => t.contains n && !visited.contains n).filter (!· == name)
      = queue.filter fun n => t.contains n && !(name :: visited).contains n := by
    rw [List.filter_filter]
    refine List.filter_congr fun n _ => ?_
    rw [List.contains_cons, Bool.not_or, Bool.and_left_comm]
  rw [fresh, List.filter_cons, if_pos in_, List.eraseDups_cons, rest, List.filterMap_cons, found]
  rfl

theorem mem_fresh_iff : d ∈ t.fresh visited queue ↔
    t.lookup d.name = some d ∧ d.name ∈ queue ∧ d.name ∉ visited := by
  rw [fresh, List.mem_filterMap]
  constructor
  · rintro ⟨name, there, found⟩
    have named := name_of_lookup found
    subst named
    obtain ⟨queued, new⟩ := List.mem_filter.1 (List.mem_eraseDups.1 there)
    exact ⟨found, queued, by simpa [contains_of_lookup found] using new⟩
  · rintro ⟨declared, queued, new⟩
    refine ⟨d.name, List.mem_eraseDups.2 (List.mem_filter.2 ⟨queued, ?_⟩), declared⟩
    simpa [contains_of_lookup declared] using new

/-- The declared types of declared names have these names. -/
theorem map_name_lookup {names : List String} (known : ∀ n ∈ names, t.contains n = true) :
    (names.filterMap t.lookup).map (·.name) = names := by
  induction names with
  | nil => rfl
  | cons name names ih =>
    obtain ⟨here, behind⟩ := List.forall_mem_cons.1 known
    obtain ⟨d, found⟩ := Option.isSome_iff_exists.1 here
    rw [List.filterMap_cons, found, List.map_cons, ih behind, name_of_lookup found]

theorem map_name_fresh : (t.fresh visited queue).map (·.name)
    = (queue.filter fun n => t.contains n && !visited.contains n).eraseDups := by
  refine map_name_lookup fun n there => ?_
  have kept := (List.mem_filter.1 (List.mem_eraseDups.1 there)).2
  exact (Bool.and_eq_true_iff.1 kept).1

/-- The names that have been met when all of the queue has been taken. -/
def metBehind (t : TypeTable) (visited queue : List String) : List String :=
  ((t.fresh visited queue).map (·.name)).reverse ++ visited

theorem mem_metBehind_iff : name ∈ t.metBehind visited queue ↔
    (∃ d ∈ t.fresh visited queue, d.name = name) ∨ name ∈ visited := by
  rw [metBehind, List.mem_append, List.mem_reverse, List.mem_map]

theorem metBehind_meet (new : visited.contains name = false) (found : t.lookup name = some d) :
    t.metBehind visited (name :: queue) = t.metBehind (name :: visited) queue := by
  rw [metBehind, fresh_meet new found, List.map_cons, List.reverse_cons, List.append_assoc,
    name_of_lookup found]
  rfl

/-- The walk first meets what is new in the front part of its queue. What these types lead to is
behind the rest of the queue then. -/
theorem walk_append (visited queue later : List String) :
    t.walk next visited (queue ++ later) = t.fresh visited queue ++
      t.walk next (t.metBehind visited queue)
        (later ++ (t.fresh visited queue).flatMap next) := by
  induction queue generalizing visited later with
  | nil => simp [metBehind]
  | cons name queue ih =>
    cases met : visited.contains name with
    | true =>
      rw [metBehind, fresh_pass (.inl met), List.cons_append, walk_skip met]
      exact ih visited later
    | false =>
      cases found : t.lookup name with
      | none =>
        rw [metBehind, fresh_pass (.inr found), List.cons_append, walk_unknown found]
        exact ih visited later
      | some d =>
        rw [metBehind_meet met found, fresh_meet met found, List.cons_append,
          walk_found met found, List.append_assoc, ih (name :: visited) (later ++ next d),
          List.flatMap_cons, List.append_assoc, List.cons_append]

/-- A walk begins with what is new in its queue. -/
theorem walk_eq (visited queue : List String) :
    t.walk next visited queue = t.fresh visited queue ++
      t.walk next (t.metBehind visited queue) ((t.fresh visited queue).flatMap next) := by
  have whole := @walk_append t next visited queue []
  rwa [List.append_nil, List.nil_append] at whole

/-! ### Distances -/

/-- The walk stands in front of a layer: what it has met are the declared types of the layers before
it, and all that is queued, and all of it that has not been met, is of this layer. -/
structure AtLayer (t : TypeTable) (next : Descriptor → List String) (roots : List String) (n : Nat)
    (visited queue : List String) : Prop where
  met : ∀ name, t.contains name = true →
    (name ∈ visited ↔ ∃ m < n, name ∈ t.layer next roots m)
  near : ∀ name ∈ queue, name ∈ t.layer next roots n
  queued : ∀ name ∈ t.layer next roots n, t.contains name = true → name ∉ visited → name ∈ queue

namespace AtLayer

theorem start (t : TypeTable) (next : Descriptor → List String) (roots : List String) :
    AtLayer t next roots 0 [] roots where
  met name _ := by simp
  near name there := there
  queued name there _ _ := there

/-- With what is new in the queue, the declared types of the layer have been met. -/
theorem metBehind (front : AtLayer t next roots n visited queue) (found : t.lookup name = some d) :
    name ∈ t.metBehind visited queue ↔ ∃ m < n + 1, name ∈ t.layer next roots m := by
  have declared := contains_of_lookup found
  rw [mem_metBehind_iff]
  constructor
  · rintro (⟨e, new, rfl⟩ | old)
    · exact ⟨n, Nat.lt_succ_self n, front.near _ (mem_fresh_iff.1 new).2.1⟩
    · obtain ⟨m, below, there⟩ := (front.met name declared).1 old
      exact ⟨m, Nat.lt_succ_of_lt below, there⟩
  · rintro ⟨m, below, there⟩
    by_cases old : name ∈ visited
    · exact .inr old
    · have here : m = n := by
        refine Nat.le_antisymm (Nat.le_of_lt_succ below) (Nat.le_of_not_lt fun nearer => old ?_)
        exact (front.met name declared).2 ⟨m, nearer, there⟩
      subst here
      have named := name_of_lookup found
      subst named
      exact .inl ⟨d, mem_fresh_iff.2 ⟨found, front.queued _ there declared old, old⟩, rfl⟩

/-- Behind a layer the walk stands in front of the next one. -/
theorem advance (front : AtLayer t next roots n visited queue) :
    AtLayer t next roots (n + 1) (t.metBehind visited queue)
      ((t.fresh visited queue).flatMap next) where
  met name declared := by
    obtain ⟨d, found⟩ := Option.isSome_iff_exists.1 declared
    exact front.metBehind found
  near name there := by
    obtain ⟨d, new, link⟩ := List.mem_flatMap.1 there
    obtain ⟨found, queued, _⟩ := mem_fresh_iff.1 new
    exact mem_layer_succ.2 ⟨d.name, front.near _ queued, d, found, link⟩
  queued name there declared new := by
    obtain ⟨middle, before, d, found, link⟩ := mem_layer_succ.1 there
    have named := name_of_lookup found
    subst named
    -- had the type been met in an earlier layer, then what it leads to would have been met, too
    have unmet : d.name ∉ visited := by
      intro old
      obtain ⟨m, below, nearer⟩ := (front.met _ (contains_of_lookup found)).1 old
      obtain ⟨e, found'⟩ := Option.isSome_iff_exists.1 declared
      exact new ((front.metBehind found').2
        ⟨m + 1, Nat.succ_lt_succ below, mem_layer_succ.2 ⟨d.name, nearer, d, found, link⟩⟩)
    have queued := front.queued _ before (contains_of_lookup found) unmet
    exact List.mem_flatMap.2 ⟨d, mem_fresh_iff.2 ⟨found, queued, unmet⟩, link⟩

/-- What has not been met is no nearer than the layer. -/
theorem le_of_unmet (front : AtLayer t next roots n visited queue)
    (declared : t.lookup name = some d) (new : name ∉ visited) {m : Nat}
    (there : name ∈ t.layer next roots m) : n ≤ m :=
  Nat.le_of_not_lt fun nearer =>
    new ((front.met name (contains_of_lookup declared)).2 ⟨m, nearer, there⟩)

/-- What is new in the queue is of the layer. -/
theorem distance_fresh (front : AtLayer t next roots n visited queue)
    (member : d ∈ t.fresh visited queue) : t.Distance next roots d.name n := by
  obtain ⟨declared, queued, new⟩ := mem_fresh_iff.1 member
  exact ⟨front.near _ queued, fun _ => front.le_of_unmet declared new⟩

/-- What the walk goes on to meet is no nearer than the layer. -/
theorem exists_distance (front : AtLayer t next roots n visited queue)
    (member : d ∈ t.walk next visited queue) : ∃ m, n ≤ m ∧ t.Distance next roots d.name m := by
  obtain ⟨declared, start, queued, leads⟩ := leads_of_mem_walk member
  obtain ⟨root, isRoot, before⟩ := exists_layer_iff.1 ⟨n, front.near start queued⟩
  obtain ⟨k, there⟩ := exists_layer_iff.2 ⟨root, isRoot, before.trans leads⟩
  obtain ⟨m, distance⟩ := TypeTable.exists_distance there
  exact ⟨m, front.le_of_unmet declared ((nodup_walk visited queue).2 d member) distance.1, distance⟩

/-- The walk meets nothing behind something that is farther away. -/
theorem pairwise_walk (front : AtLayer t next roots n visited queue) :
    (t.walk next visited queue).Pairwise fun d e =>
      ∃ m k, t.Distance next roots d.name m ∧ t.Distance next roots e.name k ∧ m ≤ k := by
  generalize size : (t.walk next visited queue).length = length
  induction length using Nat.strong_induction_on generalizing n visited queue with
  | h length ih =>
    have fromFresh : ∀ d ∈ t.fresh visited queue, ∀ e ∈ t.walk next visited queue,
        ∃ m k, t.Distance next roots d.name m ∧ t.Distance next roots e.name k ∧ m ≤ k := by
      intro d new e member
      obtain ⟨k, le, distance⟩ := front.exists_distance member
      exact ⟨n, k, front.distance_fresh new, distance, le⟩
    have layers := @walk_eq t next visited queue
    cases empty : t.fresh visited queue with
    | nil =>
      rw [empty] at layers
      rw [layers, List.flatMap_nil, walk]
      exact .nil
    | cons d ds =>
      rw [layers, List.pairwise_append]
      refine ⟨?_, ih _ ?_ front.advance rfl, fun d new e member => ?_⟩
      · exact List.pairwise_of_forall_mem_list fun d new e member =>
          fromFresh d new e (layers ▸ List.mem_append_left _ member)
      · rw [← size, layers, List.length_append, empty, List.length_cons]
        omega
      · exact fromFresh d new e (layers ▸ List.mem_append_right _ member)

end AtLayer

/-! ### The loop round by round -/

/-- What the loop holds between two rounds: the queue, the names that have come up, and the types
that have been found. -/
structure Worklist where
  queue : List String
  visited : List String
  found : List Descriptor

/-- One round takes a name from the queue. If it has not come up before, it counts as visited, and
the type it declares, if any, is found, and queues what it leads to. -/
def round (t : TypeTable) (next : Descriptor → List String) (w : Worklist) : Worklist :=
  match w.queue with
  | [] => w
  | name :: queue =>
    if w.visited.contains name then { w with queue }
    else
      match t.lookup name with
      | none => { w with queue, visited := name :: w.visited }
      | some d => ⟨queue ++ next d, name :: w.visited, w.found ++ [d]⟩

theorem round_visited {marked : List String} {found : List Descriptor} (old : name ∈ marked) :
    t.round next ⟨name :: queue, marked, found⟩ = ⟨queue, marked, found⟩ :=
  if_pos (by simpa using old)

theorem round_unknown {marked : List String} {found : List Descriptor} (new : name ∉ marked)
    (unknown : t.lookup name = none) :
    t.round next ⟨name :: queue, marked, found⟩ = ⟨queue, name :: marked, found⟩ := by
  refine (if_neg (by simpa using new)).trans ?_
  rw [unknown]

theorem round_found {marked : List String} {found : List Descriptor} (new : name ∉ marked)
    (declared : t.lookup name = some d) :
    t.round next ⟨name :: queue, marked, found⟩
      = ⟨queue ++ next d, name :: marked, found ++ [d]⟩ := by
  refine (if_neg (by simpa using new)).trans ?_
  rw [declared]

/-- The loop ends after one round for each name that comes to the queue, that is, each that is in it
and each that a type found leads to, and has found what the walk meets. That it counts names without
a type as visited, too, makes no difference. -/
theorem iterate_round (visited queue : List String) :
    ∀ marked found, (∀ name d, t.lookup name = some d → (name ∈ marked ↔ name ∈ visited)) →
      ∃ marked', (t.round next)^[(queue ++ (t.walk next visited queue).flatMap next).length]
        ⟨queue, marked, found⟩ = ⟨[], marked', found ++ t.walk next visited queue⟩ := by
  refine walk_induction (fun visited queue walk =>
    ∀ marked found, (∀ name d, t.lookup name = some d → (name ∈ marked ↔ name ∈ visited)) →
      ∃ marked', (t.round next)^[(queue ++ walk.flatMap next).length] ⟨queue, marked, found⟩
        = ⟨[], marked', found ++ walk⟩) ?_ ?_ ?_ visited queue
  · intro visited marked found _
    exact ⟨marked, by rw [List.append_nil]; rfl⟩
  · intro visited name queue passed ih marked found agree
    rw [List.cons_append, List.length_cons, Function.iterate_succ_apply]
    by_cases old : name ∈ marked
    · rw [round_visited old]
      exact ih marked found agree
    · -- a declared name that the walk passes over has been met, so the loop has it, too
      have unknown : t.lookup name = none := by
        refine passed.elim (fun met => ?_) id
        cases declared : t.lookup name with
        | none => rfl
        | some d => exact absurd ((agree name d declared).2 (by simpa using met)) old
      rw [round_unknown old unknown]
      refine ih (name :: marked) found fun other d declared => ?_
      have different : other ≠ name := by
        rintro rfl
        rw [unknown] at declared
        cases declared
      rw [← agree other d declared, List.mem_cons, or_iff_right different]
  · intro visited name queue d new declared ih marked found agree
    have unmarked : name ∉ marked := fun old =>
      Bool.eq_false_iff.1 new (by simpa using (agree name d declared).1 old)
    rw [List.flatMap_cons, ← List.append_assoc, List.cons_append, List.cons_append,
      List.length_cons, Function.iterate_succ_apply, round_found unmarked declared]
    obtain ⟨marked', ends⟩ := ih (name :: marked) (found ++ [d]) fun other e declared' => by
      rw [List.mem_cons, List.mem_cons, agree other e declared']
    exact ⟨marked', by rw [ends, List.append_assoc, List.singleton_append]⟩

/-! ### The interface closure -/

/-- The interface closure, whatever is declared, in circles or not at all: each name once, just the
declared types that interfaces of declared types lead to from a root, none behind one that is
farther away from the roots, and in front the roots that are declared, each where it is named first.
A loop that takes one name after the other ends with it, after one round for each root and for each
interface that a type of the closure names. -/
theorem interfaceClosure_exact (t : TypeTable) (roots : List String) :
    ((t.interfaceClosure roots).map (·.name)).Nodup ∧
    (∀ d, d ∈ t.interfaceClosure roots ↔
      t.lookup d.name = some d ∧ ∃ root ∈ roots, Leads t Descriptor.interfaces root d.name) ∧
    (t.interfaceClosure roots).Pairwise (fun d e => ∃ m n,
      t.Distance Descriptor.interfaces roots d.name m ∧
      t.Distance Descriptor.interfaces roots e.name n ∧ m ≤ n) ∧
    (roots.filter t.contains).eraseDups <+: (t.interfaceClosure roots).map (·.name) ∧
    ∃ visited, (t.round Descriptor.interfaces)^[
        (roots ++ (t.interfaceClosure roots).flatMap Descriptor.interfaces).length] ⟨roots, [], []⟩
      = ⟨[], visited, t.interfaceClosure roots⟩ := by
  refine ⟨(nodup_walk [] roots).1, fun d => mem_walk_iff,
    (AtLayer.start t Descriptor.interfaces roots).pairwise_walk, ?_, ?_⟩
  · have first : (t.fresh [] roots).map (·.name) = (roots.filter t.contains).eraseDups := by
      simp [map_name_fresh]
    rw [← first, interfaceClosure, walk_eq, List.map_append]
    exact List.prefix_append _ _
  · exact iterate_round [] roots [] [] fun _ _ _ => Iff.rfl

end TypeTable

namespace Sample

/-- Two interfaces in a circle and two others that lead into it, one of them farther away. -/
def junction : TypeTable where
  types := [{ name := "Left", kind := .interface, interfaces := ["Up", "Lost"] },
    { name := "Up", kind := .interface, interfaces := ["Left"] },
    { name := "Right", kind := .interface, interfaces := ["Far", "Left"] },
    { name := "Far", kind := .interface, interfaces := ["Up"] }]

example : (junction.interfaceClosure ["Lost", "Right", "Left", "Right"]).map (·.name)
    = ["Right", "Left", "Far", "Up"] := by
  decide +kernel

end Sample

end Classwright

import Classwright.Proofs.Hosting
import Classwright.Proofs.Tracing

/-!
# Compiled units are well scoped

What `compileUnit` accepts is numbered as its source says, touches slots that it has, and stores
every variable before it reads it. So nothing that a host does with compiled classes ends with a
missing slot, nor with a missing object of a body.

Host code is trusted not to make up such failures, nor objects that do not exist. A call of a method
named `this` on `null` would be worded like a missing object; it cannot be written in a source, and
`World.CallsThis` tells whether a tree that was made without one has such a call.
-/

namespace Classwright

open Check

namespace Code

/-- In every activation variables other than parameters are stored by their declarations before they
are read or written, however the activation ends. -/
def Orderly (params : List TypeRef) (body : List Stmt) : Prop :=
  ∀ calls frame locals s, ∃ log,
    traceStmts calls frame (paramScope params) body locals (s, [])
      = ((execAll calls frame body locals s).1, (execAll calls frame body locals s).2, log) ∧
    Classwright.Orderly params.length log

/-- All bodies of the class are orderly. -/
structure Class.Orderly (code : Class) : Prop where
  methods : ∀ m ∈ code.methods, Code.Orderly m.params m.body
  constructors : ∀ k ∈ code.constructors, Code.Orderly k.params k.body

theorem Class.BodyScoped.orderly {code : Class} {params : List TypeRef} {locals : Nat}
    {body : List Stmt} (h : code.BodyScoped params locals body) : Code.Orderly params body := by
  intro calls frame locals s
  have ready : ∀ slot ∈ paramScope params, Ready params.length [] slot := by
    intro slot member
    exact .inl (List.mem_range.1 (List.mem_reverse.1 member))
  obtain ⟨log, orderly, same, _⟩ :=
    traceStmts_follows calls frame params.length body h.within locals s [] orderly_nil ready
  exact ⟨log, same, orderly⟩

theorem Class.WellScoped.orderly {code : Class} (h : code.WellScoped) : code.Orderly where
  methods := fun m member => (h.methods m member).orderly
  constructors := fun k member => (h.constructors k member).orderly

end Code

namespace World

/-- The outcome is no missing slot, nor a missing object of a body. -/
def Unharmed {α : Type} (W : World) (result : Except Stop α) : Prop :=
  ∀ f, result = .error (.failed f) →
    (∀ className kind slot, f.root ≠ .illegalArgument (.missingSlot className kind slot)) ∧
      (f.root = .nullReference "this" → W.CallsThis)

/-- Whatever a host does next, it does not end with a missing slot. -/
structure NeverMisses (W : World) (s : Store) : Prop where
  link : ∀ code id depth, IsCompiled code →
    (W.withClass ⟨s.statics.size, code, id, depth⟩).Unharmed (link code id depth s).1
  instantiate : ∀ c, W.classes c.id = some c → W.Unharmed (c.instantiate s).1
  invoke : ∀ o name args, W.HasObject o → W.KnowsAll args →
    W.Unharmed (o.invoke name args s).1
  get : ∀ c name h accessible o, W.classes c.id = some c → c.declaredField name = .ok h →
    W.HasObject o → W.Unharmed ((h.setAccessible accessible).get o s).1
  set : ∀ c name h accessible o v, W.classes c.id = some c → c.declaredField name = .ok h →
    W.HasObject o → W.Knows v → W.Unharmed ((h.setAccessible accessible).set o v s).1

variable {W : World} {s : Store}

theorem unharmed_of_tolerates {α : Type} {result : Except Stop α}
    (tolerated : ∀ stop, result = .error stop → W.Tolerates stop) : W.Unharmed result := by
  intro f failed
  have blameless : W.Blameless f := tolerated _ failed
  exact ⟨blameless.slot, blameless.this⟩

theorem Hosted.neverMisses (hosted : Hosted W s) : W.NeverMisses s := by
  obtain ⟨built, furnished⟩ := hosted.furnished
  refine ⟨?_, ?_, ?_, ?_, ?_⟩
  · intro code id depth compiled
    by_cases resolved : ∀ t ∈ code.superclass :: code.interfaces, (s.tables id).resolves t = true
    · obtain ⟨table, unit, compiled⟩ := compiled
      have slots := (classNumbered compiled).wellScoped
      exact unharmed_of_tolerates (link_safe built furnished slots resolved).2.2
    · obtain ⟨supertype, failed⟩ := link_unresolved resolved
      rw [failed]
      rintro _ ⟨⟩
      exact ⟨nofun, nofun⟩
  · intro c hc
    cases found : c.code.constructors.find? (·.params.isEmpty) with
    | none =>
      rw [instantiate_none found]
      rintro _ ⟨⟩
      exact ⟨nofun, nofun⟩
    | some k =>
      by_cases hidden : k.visibility = .hidden
      · rw [instantiate_hidden found hidden]
        rintro _ ⟨⟩
        exact ⟨nofun, nofun⟩
      · intro f failed
        have blameless := (instantiate_safe built furnished hc found hidden).2.2 _ failed
        exact ⟨blameless.slot, blameless.this⟩
  · intro o name args ho hargs
    have safe := invoke_safe built (.object o) name args ho hargs nofun
    exact unharmed_of_tolerates fun stop stopped => safe.stop furnished stopped
  · intro c name h accessible o hc handle ho
    have safe := FieldHandle.get_safe hc handle accessible ho
    exact unharmed_of_tolerates fun stop stopped => safe.stop furnished stopped
  · intro c name h accessible o v hc handle ho hv
    have safe := FieldHandle.set_safe hc handle accessible ho hv
    exact unharmed_of_tolerates fun stop stopped => safe.stop furnished stopped

end World

/-- Compiled units are well scoped, and no run of linked classes misses a slot. -/
theorem well_scoped :
    (∀ table unit code, compileUnit table unit = .ok code →
      ClassNumbered unit.decl code ∧ code.WellScoped ∧ code.Orderly) ∧
    ∀ W s, World.Hosted W s → W.NeverMisses s := by
  refine ⟨fun table unit code compiled => ?_, fun W s hosted => hosted.neverMisses⟩
  have numbered := classNumbered compiled
  exact ⟨numbered, numbered.wellScoped, numbered.wellScoped.orderly⟩

namespace Sample

/-- A class with a static field, a field and variables of a loop. -/
def tally : String :=
  "class Tally \x7b static int step = 1; int total = step + 1; int add(int n) \x7b int sum = 0; "
    ++ "while (n > 0) \x7b int half = n / 2; sum = sum + half; n = n - step; \x7d "
    ++ "total = total + sum; return total; \x7d \x7d"

/-- A world in which nothing has happened. -/
def emptyWorld : World :=
  { registries := #[{}], path := 0, classes := fun _ => none, units := fun _ => unitOf tally,
    HasObject := fun _ => False }

def tallyLinked : Store := (link (codeOf {} tally) 0 64 { registries := #[{}] }).2

def tallyMade : Store := ((classOf {} tally).instantiate tallyLinked).2

/-- The world after the class has been linked and an object made. -/
def tallyWorld : World :=
  (emptyWorld.withClass (classOf {} tally)).withObject (objectOf {} tally)

theorem tally_runs : (compileSource {} tally).toOption.isSome = true ∧
    (∀ t ∈ (codeOf {} tally).superclass :: (codeOf {} tally).interfaces,
      TypeTable.resolves {} t = true) ∧
    ((codeOf {} tally).constructors.find? (·.params.isEmpty)).isSome = true ∧
    (∀ k ∈ (codeOf {} tally).constructors, k.visibility ≠ .hidden) ∧
    tallyLinked.objects.size = 0 ∧ ((codeOf {} tally).methods.map (·.locals)) = [3] ∧
    (((objectOf {} tally).invoke "add" [.int 4] tallyMade).1.toOption.map (·.text)) = some "6" := by
  decide +kernel

theorem tally_hosted : World.Hosted tallyWorld tallyMade := by
  obtain ⟨ok, resolved, found, isOpen, none_, _⟩ := tally_runs
  have start : World.Hosted emptyWorld { registries := #[{}] } := by
    refine .start (fun _ => rfl) (fun _ => id) rfl rfl ?_ fun _ member => nomatch member
    intro id type method arity code native
    cases id <;> cases native
  have linked : World.Hosted (emptyWorld.withClass (classOf {} tally)) tallyLinked :=
    .link start ⟨_, _, unit_compiles ok⟩ resolved
  obtain ⟨k, found⟩ := Option.isSome_iff_exists.1 found
  have made := World.Hosted.instantiate linked (if_pos rfl) found
    (isOpen k (List.mem_of_find?_eq_some found))
  rw [none_] at made
  exact made

/-- After four has been added in a loop the sum is six, and nothing can miss a slot. -/
theorem tally_well_scoped : compileUnit {} (unitOf tally) = .ok (codeOf {} tally) ∧
    (codeOf {} tally).WellScoped ∧ World.Hosted tallyWorld tallyMade ∧
    tallyWorld.NeverMisses tallyMade ∧
    (((objectOf {} tally).invoke "add" [.int 4] tallyMade).1.toOption.map (·.text)) = some "6" := by
  have compiled := unit_compiles tally_runs.1
  have slots := (well_scoped.1 _ _ _ compiled).2.1
  have safe := well_scoped.2 _ _ tally_hosted
  exact ⟨compiled, slots, tally_hosted, safe, tally_runs.2.2.2.2.2.2⟩

end Sample

end Classwright

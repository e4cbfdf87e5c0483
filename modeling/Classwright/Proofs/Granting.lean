import Mathlib.Data.List.Basic
import Classwright.Machine.Access

/-!
# Grants of access

Any number of grants may be in force on a handle at a time, and they may be released in any order.
Each of them puts back what was in force when it was made, so it matters which one is released last:
the field is closed again by the grant that found it closed. As long as that one outlives all
others, the field is open while any grant is in force and is what it was before when none is.
-/

namespace Classwright

theorem AccessGrant.eq_mk {g : AccessGrant} {b : Bool} (same : g.previous = b) : g = ⟨b⟩ := by
  cases g
  exact congrArg AccessGrant.mk same

/-- A handle and the grants in force on it, the latest first. -/
structure Granted where
  handle : FieldHandle
  inForce : List AccessGrant := []

/-- Access is granted once more, or a grant in force is released: the latest one has number 0. -/
inductive GrantStep
  | grant
  | release (n : Nat)

namespace Granted

def step (s : Granted) : GrantStep → Granted
  | .grant => ⟨s.handle.grant.2, s.handle.grant.1 :: s.inForce⟩
  | .release n =>
    match s.inForce[n]? with
    | some g => ⟨s.handle.release g, s.inForce.eraseIdx n⟩
    | none => s

def run (s : Granted) (steps : List GrantStep) : Granted := steps.foldl step s

/-- The handle after as many of the steps. -/
def moment (start : FieldHandle) (steps : List GrantStep) (k : Nat) : Granted :=
  run ⟨start, []⟩ (steps.take k)

theorem moment_succ {start : FieldHandle} {steps : List GrantStep} {k : Nat} {next : GrantStep}
    (there : steps[k]? = some next) :
    moment start steps (k + 1) = (moment start steps k).step next := by
  rw [moment, moment, run, List.take_add_one, there, List.foldl_append]
  rfl

theorem moment_end {start : FieldHandle} {steps : List GrantStep} {k : Nat}
    (ended : steps[k]? = none) : moment start steps (k + 1) = moment start steps k := by
  rw [moment, moment, List.take_add_one, ended, Option.toList_none, List.append_nil]

theorem step_release {s : Granted} {n : Nat} {g : AccessGrant} (found : s.inForce[n]? = some g) :
    s.step (.release n) = ⟨s.handle.release g, s.inForce.eraseIdx n⟩ := by
  rw [step, found]

/-- What grants promise of a handle that was `start` before the first of them. -/
structure Restores (start : FieldHandle) (s : Granted) : Prop where
  accessible : s.inForce ≠ [] → s.handle.accessible = true
  restored : s.inForce = [] → s.handle = start

/-- The step releases a grant that found the field closed, while other grants are in force. -/
def Closes (s : Granted) : GrantStep → Prop
  | .grant => False
  | .release n => (s.inForce[n]?.map (·.previous)) = some false ∧ s.inForce.length ≠ 1

instance (s : Granted) : DecidablePred s.Closes
  | .grant => .isFalse id
  | .release _ => inferInstanceAs (Decidable (_ ∧ _))

theorem closes_release_iff {s : Granted} {n : Nat} : s.Closes (.release n) ↔
    ∃ g, s.inForce[n]? = some g ∧ g.previous = false ∧ s.inForce.length ≠ 1 := by
  rw [Closes, Option.map_eq_some_iff]
  grind

/-- No grant is in force, or the oldest has what was in force before and the others were made while
the field was open. -/
inductive Layered (start : FieldHandle) : Granted → Prop
  | free : Layered start ⟨start, []⟩
  | held {later : List AccessGrant} : (∀ g ∈ later, g.previous = true) →
      Layered start ⟨start.setAccessible true, later ++ [⟨start.accessible⟩]⟩

namespace Layered

variable {start : FieldHandle} {s : Granted}

theorem restores (h : Layered start s) : Restores start s := by
  cases h with
  | free => exact ⟨fun there => absurd rfl there, fun _ => rfl⟩
  | held _ => exact ⟨fun _ => rfl, fun unused => absurd unused (by simp)⟩

theorem grant (h : Layered start s) : Layered start (s.step .grant) := by
  cases h with
  | free => exact @held _ [] nofun
  | @held later opened =>
    have more : ∀ g ∈ (⟨true⟩ : AccessGrant) :: later, g.previous = true := by
      intro g member
      rcases List.mem_cons.1 member with rfl | member
      · rfl
      · exact opened g member
    exact .held more

/-- One of the later grants is released: the field stays open. -/
theorem release_later {later : List AccessGrant} (opened : ∀ g ∈ later, g.previous = true) {n : Nat}
    {g : AccessGrant} (found : later[n]? = some g) :
    Layered start ⟨(start.setAccessible true).release g,
      (later ++ [(⟨start.accessible⟩ : AccessGrant)]).eraseIdx n⟩ := by
  have younger : n < later.length := (List.getElem?_eq_some_iff.1 found).1
  rw [AccessGrant.eq_mk (opened g (List.mem_of_getElem? found)),
    List.eraseIdx_append_of_lt_length younger]
  exact .held fun g member => opened g (List.mem_of_mem_eraseIdx member)

/-- The oldest grant is released, as the last one or by a field that was open before. -/
theorem release_oldest {later : List AccessGrant} (opened : ∀ g ∈ later, g.previous = true)
    (late : start.accessible = true ∨ later = []) :
    Layered start ⟨(start.setAccessible true).release ⟨start.accessible⟩, later⟩ := by
  rcases List.eq_nil_or_concat later with rfl | ⟨others, oldest, rfl⟩
  · exact .free
  · have wasOpen : start.accessible = true := late.resolve_right (by simp)
    have again : (start.setAccessible true).release ⟨start.accessible⟩
        = start.setAccessible true := by
      rw [wasOpen]
      rfl
    have same : oldest = ⟨start.accessible⟩ :=
      AccessGrant.eq_mk ((opened oldest (by simp)).trans wasOpen.symm)
    rw [again, same, List.concat_eq_append]
    exact .held fun g member => opened g (by simp [member])

/-- A release keeps the order of grants, unless it closes the field too early. -/
theorem release (h : Layered start s) {n : Nat} (late : ¬s.Closes (.release n)) :
    Layered start (s.step (.release n)) := by
  cases found : s.inForce[n]? with
  | none =>
    rw [step, found]
    exact h
  | some g =>
    rw [step_release found]
    rw [closes_release_iff] at late
    cases h with
    | free => cases found
    | @held later opened =>
      rcases Nat.lt_or_ge n later.length with younger | older
      · rw [List.getElem?_append_left younger] at found
        exact release_later opened found
      · have oldest : n = later.length := by
          have inside := (List.getElem?_eq_some_iff.1 found).1
          rw [List.length_append, List.length_singleton] at inside
          omega
        subst oldest
        obtain rfl : ⟨start.accessible⟩ = g := by simpa using found
        have rest : (later ++ [(⟨start.accessible⟩ : AccessGrant)]).eraseIdx later.length
            = later := by
          rw [List.eraseIdx_append_of_length_le (Nat.le_refl _)]
          simp
        rw [rest]
        refine release_oldest opened ?_
        by_contra early
        obtain ⟨closed, others⟩ := not_or.1 early
        exact late ⟨_, found, Bool.eq_false_iff.2 closed, by simpa using others⟩

theorem step (h : Layered start s) {next : GrantStep} (late : ¬s.Closes next) :
    Layered start (s.step next) := by
  cases next with
  | grant => exact h.grant
  | release n => exact h.release late

/-- Grants and releases that never close the field too early keep it, one after the other. -/
theorem moment {steps : List GrantStep} {k : Nat}
    (late : ∀ j < k, ∀ next, steps[j]? = some next → Layered start (Granted.moment start steps j) →
      ¬(Granted.moment start steps j).Closes next) :
    Layered start (Granted.moment start steps k) := by
  induction k with
  | zero => exact .free
  | succ k ih =>
    have before := ih fun j earlier => late j (Nat.lt_succ_of_lt earlier)
    cases there : steps[k]? with
    | none => rwa [moment_end there]
    | some next =>
      rw [moment_succ there]
      exact before.step (late k (Nat.lt_succ_self k) next there before)

/-- The latest grant closes the field only if it is the only one. -/
theorem latest_late (h : Layered start s) : ¬s.Closes (.release 0) := by
  intro early
  obtain ⟨g, found, closed, others⟩ := closes_release_iff.1 early
  cases h with
  | free => cases found
  | @held later opened =>
    cases later with
    | nil => exact others rfl
    | cons latest later =>
      cases found
      rw [opened g List.mem_cons_self] at closed
      cases closed

/-- A field that was open stays so. -/
theorem open_late (h : Layered start s) (wasOpen : start.accessible = true) (next : GrantStep) :
    ¬s.Closes next := by
  cases next with
  | grant => exact id
  | release n =>
    intro early
    obtain ⟨g, found, closed, -⟩ := closes_release_iff.1 early
    cases h with
    | free => cases found
    | held opened =>
      rcases List.mem_append.1 (List.mem_of_getElem? found) with member | member
      · rw [opened g member] at closed
        cases closed
      · rw [List.mem_singleton.1 member, wasOpen] at closed
        cases closed

end Layered

/-- A grant that is released too early leaves the field closed for the others. -/
theorem not_restores_of_closes {start : FieldHandle} {s : Granted} {next : GrantStep}
    (early : s.Closes next) : ¬Restores start (s.step next) := by
  cases next with
  | grant => exact early.elim
  | release n =>
    obtain ⟨g, found, closed, others⟩ := closes_release_iff.1 early
    intro restores
    rw [step_release found] at restores
    have left : s.inForce.eraseIdx n ≠ [] := by
      have inside := (List.getElem?_eq_some_iff.1 found).1
      refine List.ne_nil_of_length_pos ?_
      rw [List.length_eraseIdx_of_lt inside]
      omega
    have isOpen := restores.accessible left
    rw [show (s.handle.release g).accessible = g.previous from rfl, closed] at isOpen
    cases isOpen

/-- The promise is kept all the way just if no grant is released too early. -/
theorem restores_iff (start : FieldHandle) (steps : List GrantStep) :
    (∀ k, Restores start (moment start steps k)) ↔
      ∀ k next, steps[k]? = some next → ¬(moment start steps k).Closes next := by
  constructor
  · intro restores k next there early
    have after := restores (k + 1)
    rw [moment_succ there] at after
    exact not_restores_of_closes early after
  · intro late k
    exact (Layered.moment fun j _ next there _ => late j next there).restores

end Granted

/-! ### Closed fields -/

namespace FieldHandle

variable {h : FieldHandle}

/-- Without a grant a field that is not public is neither read nor written. -/
theorem check_closed (hidden : h.info.visibility ≠ .visible) (closed : h.accessible = false)
    {o : Object} (same : o.cls.id = h.cls.id) (writing : Bool) :
    h.check o writing = Run.fail (.illegalAccess h.cls.code.name h.info.name) := by
  have notOpen : h.isOpen writing = false := by
    rw [isOpen, beq_false_of_ne hidden, Bool.false_and]
  rw [check, notOpen, closed]
  simp [same]

theorem get_closed (hidden : h.info.visibility ≠ .visible) (closed : h.accessible = false)
    {o : Object} (same : o.cls.id = h.cls.id) (s : Store) :
    h.get o s = (.error (.failed (.illegalAccess h.cls.code.name h.info.name)), s) := by
  rw [get, check_closed hidden closed same]
  rfl

theorem set_closed (hidden : h.info.visibility ≠ .visible) (closed : h.accessible = false)
    {o : Object} (same : o.cls.id = h.cls.id) (v : Value) (s : Store) :
    h.set o v s = (.error (.failed (.illegalAccess h.cls.code.name h.info.name)), s) := by
  rw [set, check_closed hidden closed same]
  rfl

end FieldHandle

open Granted

/-- Access is granted and grants are released in any order on a handle. At every moment the field is
accessible if a grant is in force, and the handle is as it was before if none is, exactly if no
grant that found the field closed is released while another one is in force. That is so if the field
was accessible before, and if always the latest grant is released. Where it is so, a field that is
not public and was not accessible before is neither read nor written when no grant is in force. -/
theorem grants_restore (start : FieldHandle) (steps : List GrantStep) :
    ((∀ k, Restores start (moment start steps k)) ↔
      ∀ k next, steps[k]? = some next → ¬(moment start steps k).Closes next) ∧
    (start.accessible = true → ∀ k, Restores start (moment start steps k)) ∧
    ((∀ n, .release n ∈ steps → n = 0) → ∀ k, Restores start (moment start steps k)) ∧
    ∀ s, Restores start s → s.inForce = [] → start.accessible = false →
      start.info.visibility ≠ .visible → ∀ (o : Object) (v : Value) (t : Store),
        o.cls.id = start.cls.id →
          let refused := Failure.illegalAccess start.cls.code.name start.info.name
          s.handle.get o t = (.error (.failed refused), t) ∧
            s.handle.set o v t = (.error (.failed refused), t) := by
  refine ⟨restores_iff start steps, fun wasOpen k => ?_, fun nested k => ?_, ?_⟩
  · exact (Layered.moment fun j _ next _ layered => layered.open_late wasOpen next).restores
  · refine (Layered.moment fun j _ next there layered => ?_).restores
    cases next with
    | grant => exact id
    | release n =>
      obtain rfl := nested n (List.mem_of_getElem? there)
      exact layered.latest_late
  · intro s restores none_ closed hidden o v t same
    rw [restores.restored none_]
    exact ⟨FieldHandle.get_closed hidden closed same t,
      FieldHandle.set_closed hidden closed same v t⟩

namespace Sample

/-- A class with one private field. -/
def safeClass : LoadedClass :=
  ⟨0, ⟨Code.formatVersion, "Safe", Builtin.object, [],
    [⟨"content", .primitive .int, .hidden, false, none⟩], [], [], []⟩, 0, 64⟩

def safeField : FieldHandle :=
  { cls := safeClass, slot := 0, info := ⟨"content", .primitive .int, .hidden, false, none⟩ }

/-- The older of two grants is released first: the field is closed while the other one is in force,
and open when none is. -/
theorem elder_first : ¬∀ (start : FieldHandle) (steps : List GrantStep) (k : Nat),
    Restores start (moment start steps k) := by
  intro restores
  have closed := (restores safeField [.grant, .grant, .release 1] 3).accessible nofun
  cases closed

/-- Three grants, of which the second is released first and the oldest last. -/
def crossing : List GrantStep := [.grant, .grant, .grant, .release 1, .release 0, .release 0]

/-- The private field can be used as long as one of them is in force, and not afterwards. -/
theorem crossing_restored :
    (∀ k next, crossing[k]? = some next → ¬(moment safeField crossing k).Closes next) ∧
    (∀ k, Restores safeField (moment safeField crossing k)) ∧
    (moment safeField crossing 5).handle.accessible = true ∧
    ∀ t, ((moment safeField crossing 6).handle.get ⟨1, safeClass⟩ t).1
      = .error (.failed (.illegalAccess "Safe" "content")) := by
  have early : ∀ k < 6, ∀ next ∈ crossing[k]?, ¬(moment safeField crossing k).Closes next := by
    decide
  have late : ∀ k next, crossing[k]? = some next →
      ¬(moment safeField crossing k).Closes next := by
    intro k next there
    exact early k (List.getElem?_eq_some_iff.1 there).1 next there
  obtain ⟨exactly_, -, -, refuses⟩ := grants_restore safeField crossing
  have restores := exactly_.2 late
  refine ⟨late, restores, (restores 5).accessible nofun, fun t => ?_⟩
  have refused := refuses _ (restores 6) rfl rfl nofun ⟨1, safeClass⟩ .null t rfl
  rw [refused.1]
  rfl

end Sample

end Classwright

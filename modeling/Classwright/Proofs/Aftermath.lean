import Classwright.Proofs.Foreseeing

/-!
# What comes after a failed resolution

A resolution that fails leaves types declared. This is all that a later resolution can tell, of any
contract: it ends as it would if somebody had declared these types and nothing had been resolved.
-/

namespace Classwright

open Generation

/-- A resolution by the compiler and loader of this library that fails leaves types declared and
nothing else: the contract, and what the hooks name for it, as far as their names were free. From
then on, unless the file system changes its mind, every contract is resolved to the same code, or
fails in the same way, as if somebody had declared these types instead; in particular as if nothing
had happened if all of them were declared, and the contract that failed fails in the same way
again. -/
theorem resolve_after_failure {g : Generator} {depth : Nat} (compiler : g.compiler = scriptCompiler)
    (loader : g.loader = unitLoader depth) {s : Store} {contract : Descriptor} {stop : Stop}
    {q : Generator × Store} (failed : resolve contract (g, s) = (.error stop, q)) :
    let types := declares contract (g, s)
    Discards (declaring types (g, s)) q ∧
    (g.disk.Steady →
      (∀ next, (resolve next q).1.map (·.code)
        = (resolve next (declaring types (g, s))).1.map (·.code)) ∧
      ((∀ d ∈ types, (s.registry g.registry).table.contains d.name = true) → ∀ next,
        (resolve next q).1.map (·.code) = (resolve next (g, s)).1.map (·.code)) ∧
      (resolve contract q).1 = .error stop) := by
  have scripted : g.Scripted := ⟨compiler, depth, loader⟩
  intro types
  cases implementable : contract.isContract with
  | false =>
    have same : types = [] := by simp [types, declares, implementable]
    rw [resolve_refused implementable] at failed
    cases failed
    rw [same, declaring_nil]
    exact ⟨.refl _, fun _ =>
      ⟨fun _ => rfl, fun _ _ => rfl, by rw [resolve_refused implementable]⟩⟩
  | true =>
    have missing : g.cached? contract = none := by
      cases looked : g.cached? contract with
      | none => rfl
      | some c =>
        rw [resolve_cached implementable looked] at failed
        cases failed
    obtain ⟨q', generated, rfl⟩ : ∃ q', generate contract (g, s) = (.error stop, q') ∧
        recached (g.cache.dismiss contract) q' = q := by
      rw [resolve_missing implementable missing] at failed
      cases ran : generate contract (g, s) with
      | mk result q' =>
        rw [ran] at failed
        cases result with
        | ok c => cases failed
        | error other =>
          cases failed
          exact ⟨q', rfl, rfl⟩
    have left : Discards (declaring types (g, s)) (recached (g.cache.dismiss contract) q') := by
      have leaves := generate_leaves (p := (g, s)) scripted implementable
      rw [generated] at leaves
      exact leaves.recached (Cache.sheds_dismiss ..)
    refine ⟨left, fun disk => ?_⟩
    have steady : g.Steady := ⟨scripted, disk⟩
    have alike := left.alike steady
    have after : ∀ next, (resolve next (recached (g.cache.dismiss contract) q')).1.map (·.code)
        = (resolve next (declaring types (g, s))).1.map (·.code) := fun next =>
      (resolve_alike alike next).symm
    refine ⟨after, fun known next => ?_, ?_⟩
    · exact (after next).trans
        (resolve_alike (declaring_known (p := (g, s)) steady known) next).symm
    · have again := generate_again (p := (g, s)) steady implementable
      have anew := after contract
      rw [resolve_outcome (p := declaring types (g, s)) implementable missing, again,
        generated] at anew
      revert anew
      cases (resolve contract (recached (g.cache.dismiss contract) q')).1 with
      | ok c =>
        intro clash
        cases clash
      | error other =>
        rintro ⟨⟩
        rfl

namespace Sample

/-- An interface whose method is not to be implemented by a number. -/
def shape : Descriptor where
  name := "Shape"
  kind := .interface
  methods := [{ name := "outline", returnType := .named "String" }]

/-- Another interface of its name. -/
def blankShape : Descriptor where
  name := "Shape"
  kind := .interface

/-- A generator whose methods all return a number. -/
def numberer : Generator where
  hooks := { methodBody := fun _ _ => some "return 1;" }
  registry := 0
  workplace := ["work"]
  compiler := scriptCompiler
  loader := unitLoader 64

def blank : Store := { registries := #[{}] }

theorem shape_runs : (resolve shape (numberer, blank)).1.isOk = false ∧
    (resolve blankShape (resolve shape (numberer, blank)).2).1.isOk = false ∧
    (resolve blankShape (numberer, blank)).1.isOk = true := by
  refine ⟨by decide +kernel, by decide +kernel, ?_⟩
  have foreseen : (foreseen? numberer blank 64 blankShape).isSome = true := by decide +kernel
  obtain ⟨c, foreseen⟩ := Option.isSome_iff_exists.1 foreseen
  rw [resolve_of_foreseen rfl rfl rfl rfl rfl foreseen]
  rfl

theorem exists_error {ε α β : Type} {p : Except ε α × β} (fails : p.1.isOk = false) :
    ∃ e, p = (.error e, p.2) := by
  obtain ⟨result, b⟩ := p
  cases result with
  | ok a => cases fails
  | error e => exact ⟨e, rfl⟩

theorem map_ne {ε α β : Type} {f : α → β} {x y : Except ε α} (fails : x.isOk = false)
    (succeeds : y.isOk = true) : x.map f ≠ y.map f := by
  cases x with
  | ok a => cases fails
  | error e =>
    cases y with
    | ok a => exact nofun
    | error e => cases succeeds

/-- Its name is taken now, and it fails again. -/
theorem shape_declared : ∃ stop q, resolve shape (numberer, blank) = (.error stop, q) ∧
    Discards (declaring (declares shape (numberer, blank)) (numberer, blank)) q ∧
    (∀ next, (resolve next q).1.map (·.code)
      = (resolve next (declaring (declares shape (numberer, blank)) (numberer, blank))).1.map
        (·.code)) ∧
    (resolve shape q).1 = .error stop := by
  obtain ⟨stop, failed⟩ := exists_error shape_runs.1
  have loads : numberer.loader = unitLoader 64 := rfl
  obtain ⟨left, later⟩ := resolve_after_failure rfl loads failed
  obtain ⟨after, _, again⟩ := later ⟨fun _ _ => rfl, fun _ _ => rfl⟩
  exact ⟨stop, _, failed, left, after, again⟩

/-- What a failed resolution has declared may stand in the way of another. -/
theorem failure_leaves_types : ¬∀ (g : Generator) (s : Store) (contract next : Descriptor)
    (stop : Stop) (q : Generator × Store), g.compiler = scriptCompiler → g.loader = unitLoader 64 →
    g.cache = {} → g.disk = {} → resolve contract (g, s) = (.error stop, q) →
    (resolve next q).1.map (·.code) = (resolve next (g, s)).1.map (·.code) := by
  intro traceless
  obtain ⟨fails, blocked, resolves⟩ := shape_runs
  obtain ⟨stop, failed⟩ := exists_error fails
  exact map_ne blocked resolves
    (traceless numberer blank shape blankShape stop _ rfl rfl rfl rfl failed)

end Sample

end Classwright

import Classwright.Proofs.Proxies

/-!
# Where a proxy is made

The converse of what is known of proxies: a class is generated where its source compiles and its
code is read back from the file that it was written to, and a proxy is made where the class has been
resolved and the fields of an instance can be filled.
-/

namespace Classwright

open Check Generation

/-- The source and the class have a file each in the workplace. -/
structure ClassSource.Fits (source : ClassSource) (workplace : Path) : Prop where
  parent : (workplace.join [source.fileName]).parent = workplace
  located : FileTree.locate { directories := [workplace] } (workplace.join [source.fileName])
    = .ok (workplace.join [source.fileName])
  unitLocated : FileTree.locate { directories := [workplace] } (unitPath workplace source.className)
    = .ok (unitPath workplace source.className)
  file : unitPath workplace source.className ≠ [] ∧
    (unitPath workplace source.className).dropLast = workplace ∧
    (unitPath workplace source.className).getLast? ≠ some "" ∧
    FileTree.isDirectory { directories := [workplace] } (unitPath workplace source.className) = false

instance (source : ClassSource) (workplace : Path) : Decidable (source.Fits workplace) :=
  decidable_of_iff (_ ∧ _ ∧ _ ∧ _)
    ⟨fun ⟨parent, located, unitLocated, file⟩ => ⟨parent, located, unitLocated, file⟩,
      fun h => ⟨h.parent, h.located, h.unitLocated, h.file⟩⟩

section

variable {contract : Descriptor} {g : Generator} {s s' : Store} {source : ClassSource}
  {code : Code.Class} {c : LoadedClass}

theorem compileFile_ok {types : TypeTable} {path : Path} {t t' : FileTree} {text : String}
    (read : t.readText path = .ok text) (compiles : compileSource types text = .ok code)
    (written : t.writeText (unitPath path.parent code.name) code.toText = .ok t') :
    (compileFile types path : StateM FileTree CompileOutcome) t = (.succeeded, t') := by
  simp only [compileFile_apply, read, compiles, written]

/-- What the compiler of this library makes of a source that compiles. -/
theorem scriptCompiler_ok (fits : source.Fits g.workplace) (compiler : g.compiler = scriptCompiler)
    (disk : g.disk = {})
    (compiles : compileSource (s.registry g.registry).table source.text = .ok code)
    (named : code.name = source.className) :
    ∃ files files' : FileTree, compile source (g, s)
        = (.ok files', { g with
            workplaces := g.workplaces + 1, compilations := g.compilations + 1 }, s) ∧
      files.writeText (unitPath g.workplace code.name) code.toText = .ok files' := by
  let files : FileTree := FileTree.put { directories := [g.workplace] }
    (g.workplace.join [source.fileName]) source.text
  have read : files.readText (g.workplace.join [source.fileName]) = .ok source.text :=
    FileTree.readText_of_file? (FileTree.locate_put fits.located) (FileTree.file?_put ..)
  obtain ⟨files', written⟩ : ∃ files',
      files.writeText (unitPath g.workplace code.name) code.toText = .ok files' := by
    obtain ⟨_, directory, last, free⟩ := fits.file
    have inside : files.isDirectory g.workplace = true := by
      simp [files, FileTree.put, FileTree.isDirectory]
    rw [named, FileTree.writeText, FileTree.locate_put fits.unitLocated]
    dsimp only [bind, Except.bind]
    rw [if_neg (by rw [Bool.not_eq_true]; exact free), if_neg last, directory, inside]
    exact ⟨_, rfl⟩
  refine ⟨files, files', ?_, written⟩
  have ran := compileFile_ok read compiles (fits.parent.symm ▸ written)
  have laidOut : g.layOut source = .ok files := by
    rw [Generator.layOut, disk]
  rw [compile_eq, laidOut, compiler]
  change (compiled source ((compileFile _ _ : StateM FileTree CompileOutcome) files), _) = _
  rw [ran]
  rfl

/-- A class is generated if its source compiles and its code is read back and linked. -/
theorem generate_ok {depth : Nat} {r : Registry} (compiler : g.compiler = scriptCompiler)
    (loader : g.loader = unitLoader depth) (disk : g.disk = {})
    (matching : (s.registry g.registry).defineMatching contract = .ok r)
    (sourced : g.source contract = .ok source) (fits : source.Fits g.workplace)
    (compiles : compileSource ((declaring (g.needs contract) (g, s)).2.registry g.registry).table
      source.text = .ok code) (named : code.name = source.className)
    (version : code.version = Code.formatVersion)
    (stored : Code.Class.ofText? code.toText = if code.Readable then some code else none)
    (readable : code.Readable)
    (linked : link code g.registry depth (declaring (g.needs contract) (g, s)).2 = (.ok c, s'))
    (below : c.isSubtypeOf s'.tables contract.name = true) :
    generate contract (g, s) = (.ok c, { g with
      workplaces := g.workplaces + 1, compilations := g.compilations + 1,
      loads := g.loads + 1 }, s') := by
  have prepared : prepare contract (g, s) = (.ok source, declaring (g.needs contract) (g, s)) := by
    rw [prepare_ok (p := (g, s)) matching, sourced]
    rfl
  obtain ⟨files, files', compiled_, written⟩ := scriptCompiler_ok fits compiler disk compiles named
  have read : readUnit files' g.workplace source.className = .ok code := by
    rw [← named, readUnit_written version stored written, if_pos readable]
  have loaded : g.loader g.loads ⟨files', g.workplace, source.className, g.registry⟩
      (declaring (g.needs contract) (g, s)).2 = (.ok c, s') := by
    rw [loader]
    unfold unitLoader
    rw [read]
    exact linked
  have compiled_ : compile source (declaring (g.needs contract) (g, s)) = _ := compiled_
  rw [generate, bind_value prepared, bind_value compiled_]
  rw [load_eq, asking, bind_value (onStore_value loaded _), onStore_tables_bind, if_pos below]
  rfl

/-- A proxy is made of an instance whose fields can be filled. -/
theorem augment_ok {handler : Nat} {o : Object} {s₁ s₂ : Store}
    (isInterface : contract.isInterface = true) {p : Generator × Store}
    (resolved : resolve contract p = (.ok c, g, s)) (made : c.instantiate s = (.ok o, s₁))
    (below : c.isSubtypeOf s₁.tables contract.name = true)
    (filled : patchAll o (proxyFields contract handler) s₁ = (.ok (), s₂)) :
    augment contract handler p = (.ok o, g, s₂) := by
  have instance_ : newInstance contract p = (.ok o, g, s₁) := by
    rw [newInstance, bind_value resolved, bind_value (onStore_value made g), onStore_tables_bind,
      if_pos below]
    rfl
  unfold augment
  rw [isInterface]
  change (newInstance contract >>= fun o =>
    onStore (patchAll o (proxyFields contract handler)) >>= fun _ => pure o) p = _
  rw [bind_value instance_, bind_value (onStore_value filled g)]
  rfl

end

end Classwright

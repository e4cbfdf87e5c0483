import Classwright.Proofs.Forwarding
import Classwright.Proofs.Immutability
import Classwright.Proofs.Reloading
import Classwright.Proofs.Retrying

/-!
# The class that is generated for a delegated interface

What is stored of a delegating class is read as its code, if it is read at all, and the source that
lies beside it is no document. So whatever directory the class is compiled in: a class that is
generated for an interface whose names are legal has the code of the delegating class.
-/

namespace Classwright

open Check Generation

/-! ### Documents that are read as one value or not at all -/

namespace JsonNumber

theorem gather_all {cs : List Char} {significand size : Nat}
    (all : gather significand cs = (size, 0)) : size = Nat.ofDigitChars 10 cs significand := by
  induction cs generalizing significand with
  | nil =>
    cases all
    rfl
  | cons c cs ih =>
    rw [gather] at all
    split at all
    · exact ih all
    · cases all

/-- Digits that stand for an integer of 64 bits stand for the integer that was written. -/
theorem eq_of_toInt?_ofInt {n : Nat} {i : Int} (read : (ofInt n).toInt? = some i) : i = n := by
  have integral : (ofInt n).isIntegral = true := rfl
  have positive : (ofInt n).negative = false := by simp [ofInt]
  rw [toInt?, integral, if_neg (by decide), positive] at read
  split at read
  · rename_i size gathered
    rw [ofInt, digitList_eq] at gathered
    have whole := gather_all gathered
    rw [Nat.ofDigitChars_ten_toDigits, Int.natAbs_natCast] at whole
    cases read
    rw [whole]
  · cases read

end JsonNumber

namespace Decoder

variable {α : Type}

/-- The document is decoded to this value, if it is decoded at all. -/
def Yields (decode : Decoder α) (j : Json) (a : α) : Prop :=
  ∀ depth b, decode depth j = some b → b = a

theorem Restores.yields {decode : Decoder α} {j : Json} {a : α} (h : decode.Restores j a) :
    decode.Yields j a := by
  intro depth b read
  rw [h depth] at read
  split at read
  · exact (Option.some.inj read).symm
  · cases read

theorem nat_yields (n : Nat) : nat.Yields (.nat n) n := by
  intro depth b read
  obtain ⟨i, found, rfl⟩ := Option.map_eq_some_iff.1 read
  have whole := (Option.filter_eq_some_iff.1 found).1
  rw [JsonNumber.eq_of_toInt?_ofInt whole, Int.toNat_natCast]

theorem mapM_yields {decode : Decoder α} {encode : α → Json} {as : List α}
    (h : ∀ a ∈ as, decode.Yields (encode a) a) (depth : Nat) {bs : List α}
    (read : (as.map encode).mapM (decode depth) = some bs) : bs = as := by
  induction as generalizing bs with
  | nil =>
    cases read
    rfl
  | cons a as ih =>
    rw [List.map_cons, List.mapM_cons] at read
    obtain ⟨b, first, read⟩ := Option.bind_eq_some_iff.1 read
    obtain ⟨bs, rest, read⟩ := Option.bind_eq_some_iff.1 read
    cases read
    rw [h a List.mem_cons_self depth b first, ih (fun c member => h c (.tail _ member)) rest]

theorem list_yields {decode : Decoder α} {encode : α → Json} {as : List α}
    (h : ∀ a ∈ as, decode.Yields (encode a) a) :
    (list decode).Yields (.array (as.map encode)) as := by
  rintro (_ | depth) bs read
  · cases read
  · exact mapM_yields h depth read

end Decoder

namespace Code

open Decoder (nat_yields)

namespace Expr

theorem var_yields (n : Nat) : decode.Yields ((var n).encode Constant.encode) (var n) := by
  rintro (_ | depth) b read
  · cases read
  · obtain ⟨m, found, rfl⟩ := Option.map_eq_some_iff.1 read
    rw [nat_yields n depth m found]

theorem field_yields (n : Nat) : decode.Yields ((field n).encode Constant.encode) (field n) := by
  rintro (_ | depth) b read
  · cases read
  · obtain ⟨m, found, rfl⟩ := Option.map_eq_some_iff.1 read
    rw [nat_yields n depth m found]

theorem invoke_yields {receiver : Expr} (method : String) {args : List Expr}
    (first : decode.Yields (receiver.encode Constant.encode) receiver)
    (rest : ∀ e ∈ args, decode.Yields (e.encode Constant.encode) e) :
    decode.Yields ((invoke receiver method args).encode Constant.encode)
      (invoke receiver method args) := by
  rintro (_ | _ | _ | depth) b read
  · cases read
  · cases read
  · cases read
  · change (do
      let receiver ← decode (depth + 1) (receiver.encode Constant.encode)
      return invoke receiver method
        (← (encodeList Constant.encode args).mapM (decode depth))) = some b at read
    obtain ⟨r, found, read⟩ := Option.bind_eq_some_iff.1 read
    obtain ⟨es, given, read⟩ := Option.bind_eq_some_iff.1 read
    rw [encodeList_eq] at given
    cases read
    rw [first _ _ found, Decoder.mapM_yields rest depth given]

theorem cast_yields (t : TypeRef) (mode : CastMode) {e : Expr}
    (operand : decode.Yields (e.encode Constant.encode) e) :
    decode.Yields ((cast t mode e).encode Constant.encode) (cast t mode e) := by
  rintro (_ | _ | depth) b read
  · cases read
  · cases read
  · change (do
      let target ← TypeRef.decode depth t.encode
      let mode ← CastMode.decode depth (.str mode.word)
      return cast target mode (← decode depth (e.encode Constant.encode))) = some b at read
    rw [CastMode.decode_word] at read
    obtain ⟨t', found, read⟩ := Option.bind_eq_some_iff.1 read
    obtain ⟨_, ⟨⟩, read⟩ := Option.bind_eq_some_iff.1 read
    obtain ⟨e', given, read⟩ := Option.bind_eq_some_iff.1 read
    cases read
    rw [t.decode_encode.yields depth _ found, operand _ _ given]

theorem option_yields {e : Expr} (h : decode.Yields (e.encode Constant.encode) e) :
    (Decoder.nullable decode).Yields (encodeOption Constant.encode (some e)) (some e) := by
  intro depth b read
  have present : Decoder.nullable decode depth (e.encode Constant.encode)
      = (decode depth (e.encode Constant.encode)).map some := by
    cases e <;> rfl
  rw [encodeOption, present] at read
  obtain ⟨e', found, rfl⟩ := Option.map_eq_some_iff.1 read
  rw [h depth e' found]

end Expr

namespace Stmt

theorem expr_yields {e : Expr} (h : Expr.decode.Yields (e.encode Constant.encode) e) :
    decode.Yields ((expr e).encode Constant.encode) (expr e) := by
  rintro (_ | depth) b read
  · cases read
  · obtain ⟨e', found, rfl⟩ := Option.map_eq_some_iff.1 read
    rw [h depth e' found]

theorem ret_yields {e : Expr} (h : Expr.decode.Yields (e.encode Constant.encode) e) :
    decode.Yields ((ret (some e)).encode Constant.encode) (ret (some e)) := by
  rintro (_ | depth) b read
  · cases read
  · obtain ⟨value, found, rfl⟩ := Option.map_eq_some_iff.1 read
    rw [Expr.option_yields h depth value found]

end Stmt

theorem Method.yields {m : Method} {s : Stmt} (only : m.body = [s])
    (h : Stmt.decode.Yields (s.encode Constant.encode) s) :
    decode.Yields (m.encode Constant.encode) m := by
  have body : (Decoder.list Stmt.decode).Yields
      (.array (Stmt.encodeList Constant.encode m.body)) m.body := by
    have each : ∀ t ∈ [s], Stmt.decode.Yields (t.encode Constant.encode) t := by
      intro t member
      rw [List.mem_singleton.1 member]
      exact h
    rw [only]
    exact Decoder.list_yields each
  rintro (_ | depth) b read
  · cases read
  · rw [m.decode_members, m.visibility.decode_encode] at read
    obtain ⟨params, foundParams, read⟩ := Option.bind_eq_some_iff.1 read
    obtain ⟨type, foundType, read⟩ := Option.bind_eq_some_iff.1 read
    obtain ⟨throws, foundThrows, read⟩ := Option.bind_eq_some_iff.1 read
    obtain ⟨_, ⟨⟩, read⟩ := Option.bind_eq_some_iff.1 read
    obtain ⟨locals, foundLocals, read⟩ := Option.bind_eq_some_iff.1 read
    obtain ⟨statements, foundBody, read⟩ := Option.bind_eq_some_iff.1 read
    cases read
    rw [(types_restore m.params).yields _ _ foundParams,
      m.returnType.decode_encode.yields _ _ foundType,
      (strings_restore m.throws).yields _ _ foundThrows, nat_yields _ _ _ foundLocals,
      body _ _ foundBody]

/-- A class is read as itself, or not at all, if all its members are. -/
theorem Class.yields {c : Class}
    (fields : ∀ f ∈ c.fields, Field.decode.Yields (f.encode Constant.encode) f)
    (statics : ∀ f ∈ c.statics, Field.decode.Yields (f.encode Constant.encode) f)
    (constructors : ∀ k ∈ c.constructors, Constructor.decode.Yields (k.encode Constant.encode) k)
    (methods : ∀ m ∈ c.methods, Method.decode.Yields (m.encode Constant.encode) m) :
    decode.Yields (c.encode Constant.encode) c := by
  rintro (_ | depth) b read
  · cases read
  · rw [c.decode_members] at read
    obtain ⟨version, foundVersion, read⟩ := Option.bind_eq_some_iff.1 read
    obtain ⟨interfaces, foundInterfaces, read⟩ := Option.bind_eq_some_iff.1 read
    obtain ⟨fs, foundFields, read⟩ := Option.bind_eq_some_iff.1 read
    obtain ⟨ss, foundStatics, read⟩ := Option.bind_eq_some_iff.1 read
    obtain ⟨ks, foundConstructors, read⟩ := Option.bind_eq_some_iff.1 read
    obtain ⟨ms, foundMethods, read⟩ := Option.bind_eq_some_iff.1 read
    cases read
    rw [JsonNumber.eq_of_toInt?_ofInt (Option.filter_eq_some_iff.1 foundVersion).1,
      (strings_restore c.interfaces).yields _ _ foundInterfaces,
      Decoder.list_yields fields _ _ foundFields, Decoder.list_yields statics _ _ foundStatics,
      Decoder.list_yields constructors _ _ foundConstructors,
      Decoder.list_yields methods _ _ foundMethods, Int.toNat_natCast]

end Code

namespace Delegation

open Code (Expr Stmt)

variable {contract : Descriptor}

theorem callCode_yields (slot arity : Nat) :
    Expr.decode.Yields ((callCode slot arity).encode Code.Constant.encode)
      (callCode slot arity) := by
  refine Expr.invoke_yields _ (Expr.field_yields 0) fun e member => ?_
  rcases List.mem_cons.1 member with rfl | member
  · exact Expr.field_yields 1
  · rcases List.mem_cons.1 member with rfl | member
    · exact Expr.field_yields slot
    · obtain ⟨i, _, rfl⟩ := List.mem_map.1 member
      exact Expr.var_yields i

theorem answerCode_yields (type : TypeRef) {call : Expr}
    (h : Expr.decode.Yields (call.encode Code.Constant.encode) call) :
    Stmt.decode.Yields ((answerCode type call).encode Code.Constant.encode)
      (answerCode type call) := by
  have given : Stmt.decode.Yields
      ((Stmt.ret (some (if type == .object then call else .cast type .check call))).encode
        Code.Constant.encode)
      (.ret (some (if type == .object then call else .cast type .check call))) := by
    split
    · exact Stmt.ret_yields h
    · exact Stmt.ret_yields (Expr.cast_yields type .check h)
  cases type with
  | void => exact Stmt.expr_yields h
  | _ => exact given

/-- The stored form of a delegating class is read as the class, or not at all. -/
theorem code_yields (contract : Descriptor) :
    Code.Class.decode.Yields ((code contract).encode Code.Constant.encode) (code contract) := by
  refine Code.Class.yields (fun f member => ?_) nofun (fun k member => ?_) fun m member => ?_
  · obtain ⟨f, _, rfl⟩ := List.mem_map.1 member
    have exact : (fieldCode f).Only Code.Constant.Exact fun _ _ => True := nofun
    exact (Code.Field.decode_encode exact nofun).yields
  · rw [List.mem_singleton.1 member]
    let k : Code.Constructor := ⟨[], .visible, 0, []⟩
    have exact : Stmt.AllOnly Code.Constant.Exact (fun _ _ => True) k.body := trivial
    have counted : Code.BodyCounted k.params k.locals k.body := ⟨by decide, nofun⟩
    exact (Code.Constructor.decode_encode exact counted).yields
  · obtain ⟨m, _, rfl⟩ := List.mem_map.1 member
    exact Code.Method.yields rfl (answerCode_yields m.returnType (callCode_yields _ _))

theorem ofText?_code {c : Code.Class}
    (read : Code.Class.ofText? (code contract).toText = some c) : c = code contract := by
  rw [Code.Class.ofText?_toText_eq_decode] at read
  exact code_yields contract _ _ read

end Delegation

/-! ### What lies in the directory -/

/-- A text that starts like an import or the declaration of a public class is no document. -/
theorem parse?_word {text : String} {c : Char} {cs : List Char} (letter : c = 'p' ∨ c = 'i')
    (start : text.toList = c :: cs) : Json.parse? text = none := by
  have unread : ∀ s, s = c :: cs → Json.readValue s = none := by
    rintro s rfl
    rw [Json.readValue]
    split
    · rename_i none_
      rcases letter with rfl | rfl <;> cases none_
    · rename_i c' cs' found
      obtain ⟨rfl, rfl⟩ : c = c' ∧ cs = cs' := by
        rcases letter with rfl | rfl <;>
          exact List.cons.inj (show _ :: cs = c' :: cs' from found)
      rcases letter with rfl | rfl
      all_goals
        rw [if_neg (by decide), if_neg (by decide), if_neg (by decide), if_neg (by simp),
          if_neg (by simp), if_neg (by simp)]
        rfl
  rw [Json.parse?, unread _ start]
  rfl

theorem source_word {hooks : Hooks} {contract : Descriptor} {className : String}
    {source : ClassSource} (made : synthesize hooks contract className = .ok source) :
    ∃ c cs, (c = 'p' ∨ c = 'i') ∧ source.text.toList = c :: cs := by
  obtain ⟨superclass, _, _, text⟩ := Synthesis.synthesize_text made
  have front : ∀ rest : String, ∃ cs, ("public class " ++ rest).toList = 'p' :: cs :=
    fun rest => ⟨_, String.toList_append⟩
  rw [text]
  cases given : Synthesis.distinct (hooks.imports contract) with
  | nil =>
    rw [show Synthesis.importLines [] = "" from rfl, String.empty_append]
    unfold Synthesis.header
    repeat rw [String.append_assoc]
    obtain ⟨cs, start⟩ := front _
    exact ⟨'p', cs, .inl rfl, start⟩
  | cons path paths =>
    have first : ∃ cs, (Synthesis.importLines (path :: paths)).toList = 'i' :: cs := by
      rw [Synthesis.importLines, List.isEmpty_cons, if_neg Bool.false_ne_true, List.map_cons,
        String.toList_append, String.toList_join, List.flatMap_cons, String.toList_append,
        String.toList_append]
      exact ⟨_, rfl⟩
    obtain ⟨cs, start⟩ := first
    simp only [String.toList_append, start, List.cons_append]
    exact ⟨'i', _, .inr rfl, rfl⟩

namespace FileTree

variable {t t' : FileTree} {p : Path} {content : String}

theorem mem_of_readText (read : t.readText p = .ok content) : content ∈ t.files.map (·.2) := by
  cases found : t.locate p with
  | error f =>
    rw [readText, found] at read
    cases read
  | ok place =>
    rw [readText_of_locate found] at read
    cases file : t.file? place with
    | none =>
      rw [file] at read
      cases read
    | some other =>
      rw [file] at read
      cases read
      obtain ⟨entry, first, rfl⟩ := Option.map_eq_some_iff.1 file
      exact List.mem_map_of_mem (List.mem_of_find?_eq_some first)

theorem mem_of_writeText (written : t.writeText p content = .ok t') {other : String}
    (member : other ∈ t'.files.map (·.2)) : other = content ∨ other ∈ t.files.map (·.2) := by
  obtain ⟨place, rfl⟩ : ∃ place, t' = t.put place content := by
    unfold writeText at written
    cases found : t.locate p with
    | error f =>
      rw [found] at written
      cases written
    | ok place =>
      rw [found] at written
      dsimp only [bind, Except.bind] at written
      split at written
      · cases written
      · split at written
        · cases written
        · split at written
          · cases written
          · cases written
            exact ⟨place, rfl⟩
  obtain ⟨entry, there, rfl⟩ := List.mem_map.1 member
  rcases List.mem_cons.1 there with rfl | there
  · exact .inl rfl
  · exact .inr (List.mem_map_of_mem (List.mem_filter.1 there).1)

end FileTree

/-- A compilation in terms of the file tree alone. -/
theorem compileFile_apply (types : TypeTable) (path : Path) (t : FileTree) :
    (compileFile types path : StateM FileTree CompileOutcome) t = match t.readText path with
      | .error f => (.broken f, t)
      | .ok text => match compileSource types text with
        | .error e => (.failed (e.reports text), t)
        | .ok code => match t.writeText (unitPath path.parent code.name) code.toText with
          | .error f => (.broken f, t)
          | .ok t' => (.succeeded, t') := by
  have bind_apply : ∀ {α β : Type} (x : StateM FileTree α) (f : α → StateM FileTree β)
      (t : FileTree), (x >>= f) t = f (x t).1 (x t).2 := fun _ _ _ => rfl
  have read : (FileSystem.readText path : StateM FileTree _) t = (t.readText path, t) := rfl
  unfold compileFile
  rw [bind_apply, read]
  cases t.readText path with
  | error f => rfl
  | ok text =>
    dsimp only
    cases compileSource types text with
    | error e => rfl
    | ok code =>
      dsimp only
      rw [bind_apply]
      dsimp only [FileSystem.writeText]
      cases t.writeText (unitPath path.parent code.name) code.toText <;> rfl

/-- How a compilation succeeds. -/
theorem compileFile_succeeded {types : TypeTable} {path : Path} {t t' : FileTree}
    (ran : (compileFile types path : StateM FileTree CompileOutcome) t = (.succeeded, t')) :
    ∃ text code, t.readText path = .ok text ∧ compileSource types text = .ok code ∧
      t.writeText (unitPath path.parent code.name) code.toText = .ok t' := by
  rw [compileFile_apply] at ran
  cases read : t.readText path with
  | error f =>
    rw [read] at ran
    cases ran
  | ok text =>
    rw [read] at ran
    dsimp only at ran
    cases compiled : compileSource types text with
    | error e =>
      rw [compiled] at ran
      cases ran
    | ok code =>
      rw [compiled] at ran
      dsimp only at ran
      cases written : t.writeText (unitPath path.parent code.name) code.toText with
      | error f =>
        rw [written] at ran
        cases ran
      | ok t'' =>
        rw [written] at ran
        cases ran
        exact ⟨text, code, rfl, compiled, written⟩

/-- Where the compiler has succeeded there is nothing but the source and the class, so a class that
is read is what has been compiled and stored. -/
theorem readUnit_succeeded {hooks : Hooks} {contract : Descriptor} {ownName : String}
    {source : ClassSource} (made : synthesize hooks contract ownName = .ok source)
    {directories : List Path} {path : Path} {types : TypeTable} {files : FileTree}
    (ran : (compileFile types path : StateM FileTree CompileOutcome)
      (FileTree.put { directories := directories } path source.text) = (.succeeded, files))
    {directory : Path} {className : String} {c : Code.Class}
    (read : readUnit files directory className = .ok c) :
    ∃ code, compileSource types source.text = .ok code ∧
      Code.Class.ofText? code.toText = some c := by
  have only : ∀ content ∈ (FileTree.put { directories := directories } path source.text).files.map
      (·.2), content = source.text := by
    intro content member
    exact List.mem_singleton.1 member
  obtain ⟨text, code, found, compiled, written⟩ := compileFile_succeeded ran
  rw [only text (FileTree.mem_of_readText found)] at compiled
  refine ⟨code, compiled, ?_⟩
  delta readUnit at read
  cases stored : files.readText (unitPath directory className) with
  | error f =>
    rw [stored] at read
    cases read
  | ok content =>
    rw [stored] at read
    dsimp only at read
    cases decoded : Code.Class.ofText? content with
    | none =>
      rw [decoded] at read
      cases read
    | some c' =>
      rw [decoded] at read
      dsimp only at read
      obtain rfl : c' = c := by grind
      rcases FileTree.mem_of_writeText written (FileTree.mem_of_readText stored) with rfl | there
      · exact decoded
      · obtain ⟨_, cs, letter, start⟩ := source_word made
        rw [only content there, Code.Class.ofText?, parse?_word letter start] at decoded
        cases decoded

/-! ### Generation -/

theorem link_value {code : Code.Class} {id depth : Nat} {s s' : Store} {c : LoadedClass}
    (linked : link code id depth s = (.ok c, s')) : c = ⟨s.statics.size, code, id, depth⟩ := by
  obtain ⟨result, added, ends⟩ := link_ends code id depth (s.tables id)
  rw [ends s rfl] at linked
  cases result with
  | error f => cases linked
  | ok _ =>
    cases linked
    rfl

/-- How preparation succeeds. -/
theorem prepare_value {contract : Descriptor} {p q : Generator × Store} {source : ClassSource}
    (ran : prepare contract p = (.ok source, q)) :
    p.1.source contract = .ok source ∧ q = declaring (p.1.needs contract) p := by
  cases made : (p.2.registry p.1.registry).defineMatching contract with
  | error f =>
    rw [prepare_refused made] at ran
    cases ran
  | ok r =>
    rw [prepare_ok made] at ran
    cases sourced : p.1.source contract with
    | error e =>
      rw [sourced] at ran
      cases ran
    | ok other =>
      rw [sourced] at ran
      cases ran
      exact ⟨rfl, rfl⟩

theorem compile_value {source : ClassSource} {g : Generator} {s : Store} {files : FileTree}
    {q : Generator × Store} (ran : compile source (g, s) = (.ok files, q)) :
    g.compiler g.compilations ⟨(s.registry g.registry).table, g.entries,
        g.workplace.join [source.fileName]⟩
      (FileTree.put { directories := [g.workplace] } (g.workplace.join [source.fileName])
        source.text) = (.succeeded, files) ∧
      q = ({ g with
        workplaces := g.workplaces + 1, compilations := g.compilations + 1 }, s) := by
  rw [compile_eq] at ran
  cases laidOut : g.layOut source with
  | error f =>
    rw [laidOut] at ran
    cases ran
  | ok written =>
    rw [laidOut] at ran
    have whole : written = FileTree.put { directories := [g.workplace] }
        (g.workplace.join [source.fileName]) source.text := by
      unfold Generator.layOut at laidOut
      split at laidOut
      · cases laidOut
      · cases laidOut
      · cases laidOut
        rfl
    subst whole
    dsimp only at ran
    generalize g.compiler g.compilations _ _ = answer at ran ⊢
    obtain ⟨outcome, left⟩ := answer
    cases outcome with
    | broken f => cases ran
    | failed diagnostics => cases ran
    | succeeded =>
      cases ran
      exact ⟨rfl, rfl⟩

theorem load_value {contract : Descriptor} {className : String} {files : FileTree} {g : Generator}
    {s : Store} {c : LoadedClass} {q : Generator × Store}
    (ran : load contract className files (g, s) = (.ok c, q)) :
    g.loader g.loads ⟨files, g.workplace, className, g.registry⟩ s = (.ok c, q.2) ∧
      q.1 = { g with loads := g.loads + 1 } := by
  rw [load_eq, asking] at ran
  cases loaded : g.loader g.loads ⟨files, g.workplace, className, g.registry⟩ s with
  | mk result s' =>
    cases result with
    | error stop =>
      rw [bind_error (onStore_error loaded _)] at ran
      cases ran
    | ok d =>
      rw [bind_value (onStore_value loaded _), onStore_tables_bind] at ran
      split at ran
      · cases ran
        exact ⟨rfl, rfl⟩
      · cases ran

/-- What the compiler and the loader of this library make of a contract: the class that is stored of
what its source is compiled to. -/
theorem generate_compiled {g : Generator} {depth : Nat} (compiler : g.compiler = scriptCompiler)
    (loader : g.loader = unitLoader depth) {contract : Descriptor} {s : Store} {c : LoadedClass}
    {q : Generator × Store} (ran : generate contract (g, s) = (.ok c, q)) :
    ∃ source types code,
      synthesize g.hooks contract (classNameFor contract.name) = .ok source ∧
      compileSource types source.text = .ok code ∧
      Code.Class.ofText? code.toText = some c.code ∧ c.maxCallDepth = depth := by
  obtain ⟨source, p₁, prepared, ran⟩ := bind_ok ran
  obtain ⟨files, p₂, compiled, ran⟩ := bind_ok ran
  obtain ⟨made, rfl⟩ := prepare_value prepared
  obtain ⟨succeeded, rfl⟩ := compile_value compiled
  obtain ⟨loaded, _⟩ := load_value ran
  dsimp only [declaring] at succeeded loaded
  rw [compiler] at succeeded
  rw [loader] at loaded
  unfold unitLoader at loaded
  cases read : readUnit files g.workplace source.className with
  | error f =>
    rw [read] at loaded
    cases loaded
  | ok stored =>
    rw [read] at loaded
    rw [link_value loaded]
    obtain ⟨code, compiles, decoded⟩ := readUnit_succeeded made succeeded read
    exact ⟨source, _, code, made, compiles, decoded, rfl⟩

/-- The methods of what is generated go to handlers; compiler and loader are those of this library,
and calls may nest up to a depth. -/
structure Generator.Delegates (g : Generator) (depth : Nat) : Prop where
  hooks : g.hooks = .delegating
  compiler : g.compiler = scriptCompiler
  loader : g.loader = unitLoader depth

namespace Delegation

variable {contract : Descriptor}

/-- The source of a delegating class is compiled to its code. -/
theorem code_of_compileSource (legal : Legal contract) (isInterface : contract.isInterface = true)
    {source : ClassSource}
    (made : synthesize .delegating contract (classNameFor contract.name) = .ok source)
    {table : TypeTable} {c : Code.Class} (compiled : compileSource table source.text = .ok c) :
    c = code contract ∧ Distinct contract := by
  obtain ⟨lexed, read, scanned, parsed, same⟩ := source_reads legal made
  obtain ⟨tokens, unit, scanned', parsed', compiled⟩ := compileUnit_of_compileSource compiled
  rw [scanned, Except.ok.injEq] at scanned'
  subst scanned'
  rw [parsed, Except.ok.injEq] at parsed'
  subst parsed'
  exact code_of_compileUnit legal isInterface same compiled

/-- The class delegates the methods of the interface. -/
structure Generated (contract : Descriptor) (depth : Nat) (c : LoadedClass) : Prop where
  code : c.code = code contract
  distinct : Distinct contract
  maxCallDepth : c.maxCallDepth = depth

/-- The class that is generated for an interface delegates its methods. -/
theorem generate_code (legal : Legal contract) (isInterface : contract.isInterface = true)
    {g : Generator} {depth : Nat} (delegates : g.Delegates depth) {s : Store} {c : LoadedClass}
    {q : Generator × Store} (ran : generate contract (g, s) = (.ok c, q)) :
    Generated contract depth c := by
  obtain ⟨source, types, compiledCode, made, compiled, decoded, deep⟩ :=
    generate_compiled delegates.compiler delegates.loader ran
  rw [delegates.hooks] at made
  obtain ⟨same, distinct⟩ := code_of_compileSource legal isInterface made compiled
  rw [same] at decoded
  exact ⟨ofText?_code decoded, distinct, deep⟩

end Delegation

end Classwright

import Classwright.Proofs.Layout
import Classwright.Proofs.Rereading

/-!
# Members by themselves

A member is read within the tokens up to the semicolon or the braces that end it, and so is a
malformed one passed over. So whatever stands in front of these tokens and behind them, they are
read as the same member, or fail with the same error, as by themselves.
-/

namespace Classwright.Source

open Synthesis

/-! ### Chunks -/

/-- Every brace in the tokens has its counterpart. -/
inductive Balanced : List Token → Prop
  | nil : Balanced []
  | cons {t : Token} {ts : List Token} : t ≠ .symbol .leftBrace → t ≠ .symbol .rightBrace →
      Balanced ts → Balanced (t :: ts)
  | braces {ts us : List Token} : Balanced ts → Balanced us →
      Balanced (.symbol .leftBrace :: (ts ++ .symbol .rightBrace :: us))

/-- What may be a member: free tokens and the semicolon or the braces behind them. -/
inductive Chunk : List Token → Prop
  | semicolon {ts : List Token} : (∀ t ∈ ts, t.isFree = true) → Chunk (ts ++ [.symbol .semicolon])
  | braces {ts us : List Token} : (∀ t ∈ ts, t.isFree = true) → Balanced us →
      Chunk (ts ++ .symbol .leftBrace :: (us ++ [.symbol .rightBrace]))

/-- The tokens end a declaration in which `k` braces are open, and nothing is behind them. -/
inductive Concludes : Nat → List Token → Prop
  | semicolon : Concludes 0 [.symbol .semicolon]
  | brace : Concludes 1 [.symbol .rightBrace]
  | free {k : Nat} {t : Token} {ts : List Token} : t.isFree = true → Concludes k ts →
      Concludes k (t :: ts)
  | inner {k : Nat} {ts : List Token} : Concludes (k + 1) ts →
      Concludes (k + 1) (.symbol .semicolon :: ts)
  | opening {k : Nat} {ts : List Token} : Concludes (k + 1) ts →
      Concludes k (.symbol .leftBrace :: ts)
  | closing {k : Nat} {ts : List Token} : Concludes (k + 1) ts →
      Concludes (k + 2) (.symbol .rightBrace :: ts)

section Ending

variable {k : Nat} {ts us : List Token}

theorem Concludes.free_append (h : Concludes k us) (free : ∀ t ∈ ts, t.isFree = true) :
    Concludes k (ts ++ us) := by
  induction ts with
  | nil => exact h
  | cons t ts ih =>
    exact .free (free t List.mem_cons_self) (ih fun u member => free u (.tail t member))

theorem Balanced.concludes_append (h : Balanced ts) (ends : Concludes (k + 1) us) :
    Concludes (k + 1) (ts ++ us) := by
  induction h generalizing k us with
  | nil => exact ends
  | @cons t ts noLeft noRight _ ih =>
    by_cases semicolon : t = .symbol .semicolon
    · subst semicolon
      exact .inner (ih ends)
    · exact .free (by simp [Token.isFree, *]) (ih ends)
  | braces _ _ ih ih' =>
    rw [List.cons_append, List.append_assoc]
    exact .opening (ih (.closing (ih' ends)))

theorem Chunk.concludes (h : Chunk ts) : Concludes 0 ts := by
  cases h with
  | semicolon free => exact Concludes.semicolon.free_append free
  | braces free balanced =>
    have group := Concludes.opening (balanced.concludes_append .brace)
    exact group.free_append free

theorem Concludes.cons_inv {t : Token} (h : Concludes k (t :: ts)) :
    (t.isFree = true → Concludes k ts) ∧
    (t = .symbol .semicolon → k = 0 ∧ ts = [] ∨ k ≠ 0 ∧ Concludes k ts) ∧
    (t = .symbol .leftBrace → Concludes (k + 1) ts) ∧
    (t = .symbol .rightBrace → k = 1 ∧ ts = [] ∨ ∃ j, k = j + 2 ∧ Concludes (j + 1) ts) := by
  cases h <;> simp_all [Token.isFree]

theorem Concludes.ne_rightBrace {t : Token} (h : Concludes 0 (t :: ts)) :
    t ≠ .symbol .rightBrace := fun close => by
  obtain ⟨⟨⟩, -⟩ | ⟨j, ⟨⟩, -⟩ := h.cons_inv.2.2.2 close

end Ending

/-! ### A chunk by itself and in front of others -/

namespace Step

variable {α : Type} {n : Nat} {s : Step α n}

theorem result_eq_ok {a : α} : s.result = .ok a ↔ ∃ d, s.Gives a d := by
  cases s with
  | ok b d shorter => simp [result, Gives, shorter]
  | error => simp [result, Gives]

theorem result_eq_error {e : SyntaxError} : s.result = .error e ↔ ∃ d, s = .error e d := by
  cases s <;> simp [result]

end Step

/-- What is left of a chunk, by itself and in front of `more`. -/
def Tandem.chunk (more : List Lexeme) (finish finish' : Span) : Tandem where
  move := id
  finish := finish
  finish' := finish'
  within k ts ts' := Concludes k (ts.map (·.token)) ∧ ts' = ts ++ more
  behind ts ts' := ts = [] ∧ ts' = more
  carries := Span.carries_id
  step := by
    rintro k (_ | ⟨⟨t, s⟩, us⟩) _ ⟨concludes, rfl⟩
    · cases concludes
    · obtain ⟨free, semicolon, opening, closing⟩ := concludes.cons_inv
      refine .inr ⟨t, s, us, us ++ more, rfl, rfl, fun h => ⟨free h, rfl⟩, fun h => ?_,
        fun h => ⟨opening h, rfl⟩, fun j same h => ?_⟩
      · obtain ⟨rfl, last⟩ | ⟨inner, left⟩ := semicolon h
        · obtain rfl := List.map_eq_nil_iff.1 last
          exact ⟨rfl, rfl⟩
        · obtain ⟨k, rfl⟩ := Nat.exists_eq_succ_of_ne_zero inner
          exact ⟨left, rfl⟩
      · subst same
        obtain ⟨⟨⟩, last⟩ | ⟨i, ⟨⟩, left⟩ := closing h
        · obtain rfl := List.map_eq_nil_iff.1 last
          exact ⟨rfl, rfl⟩
        · exact ⟨left, rfl⟩

namespace Cursor

variable {className : String} {chunk more : List Lexeme}

theorem skipDeclaration_free {t : Token} (free : t.isFree = true) (s last : Span) (k : Nat)
    (ts : List Lexeme) : skipDeclaration last k (⟨t, s⟩ :: ts) = skipDeclaration s k ts := by
  cases t with
  | symbol sign => cases sign <;> first | rfl | exact absurd free (by decide)
  | _ => rfl

/-- A chunk is passed over as a whole, and nothing else. -/
theorem skipDeclaration_chunk {k : Nat} (h : Concludes k (chunk.map (·.token))) (last : Span) :
    (skipDeclaration last k (chunk ++ more)).2 = more := by
  induction chunk generalizing k last with
  | nil => cases h
  | cons l ts ih =>
    obtain ⟨t, s⟩ := l
    generalize same : (⟨t, s⟩ :: ts : List Lexeme).map (·.token) = us at h
    cases h with
    | semicolon | brace =>
      obtain ⟨rfl, last⟩ := List.cons.inj same
      obtain rfl := List.map_eq_nil_iff.1 last
      rfl
    | free free left =>
      obtain ⟨rfl, rfl⟩ := List.cons.inj same
      rw [List.cons_append, skipDeclaration_free free]
      exact ih left s
    | inner left | opening left | closing left =>
      obtain ⟨rfl, rfl⟩ := List.cons.inj same
      exact ih left s

end Cursor

/-- What the tokens are read as by themselves, in front of an end at `finish`. -/
def alone (className : String) (finish : Span) (chunk : List Lexeme) : Except SyntaxError Member :=
  ((Cursor.ofLexed ⟨chunk, finish⟩).member className).result

/-- The tokens are this member, from the first to the last. -/
def IsMember (className : String) (finish : Span) (chunk : List Lexeme) (m : Member) : Prop :=
  ∃ d : Cursor, d.rest = [] ∧ ((Cursor.ofLexed ⟨chunk, finish⟩).member className).Gives m d

section Chunks

variable {className : String} {chunk more : List Lexeme} {finish : Span} {c : Cursor} {m : Member}
  {e : SyntaxError}

/-- A chunk is read the same by itself and in front of others, and reading it stops behind it. -/
theorem member_chunk (shaped : Chunk (chunk.map (·.token))) (whole : c.rest = chunk ++ more) :
    Step.Alike id id (fun d d' => d.rest = [] ∧ d'.rest = more)
      ((Cursor.ofLexed ⟨chunk, finish⟩).member className) (c.member className) := by
  have facing : (Tandem.chunk more finish c.finish).Facing 0 (Cursor.ofLexed ⟨chunk, finish⟩) c :=
    ⟨⟨shaped.concludes, whole⟩, rfl, rfl⟩
  have alike := Tandem.member_alike className facing
  have same : Member.relocate id = id := funext Member.relocate_id
  rw [← same]
  exact alike.weaken fun _ _ on => on.rest

/-- A chunk by itself is read to its end or not at all. -/
theorem isMember_iff (shaped : Chunk (chunk.map (·.token))) :
    IsMember className finish chunk m ↔ alone className finish chunk = .ok m := by
  constructor
  · rintro ⟨d, -, shorter, read⟩
    rw [alone, read, Step.result]
  · intro read
    obtain ⟨d, given⟩ := Step.result_eq_ok.1 read
    have itself : (Cursor.ofLexed ⟨chunk, finish⟩).rest = chunk ++ [] := (List.append_nil _).symm
    obtain ⟨_, -, done, -⟩ := (member_chunk shaped itself).of_ok given
    exact ⟨d, done, given⟩

theorem member_of_alone (shaped : Chunk (chunk.map (·.token))) (whole : c.rest = chunk ++ more)
    (read : alone className finish chunk = .ok m) :
    ∃ d, (c.member className).Gives m d ∧ d.rest = more := by
  obtain ⟨_, given⟩ := Step.result_eq_ok.1 read
  obtain ⟨d, given', -, left⟩ := (member_chunk shaped whole).of_ok given
  exact ⟨d, given', left⟩

theorem failure_of_alone (shaped : Chunk (chunk.map (·.token))) (whole : c.rest = chunk ++ more)
    (failed : alone className finish chunk = .error e) :
    ∃ d, c.member className = .error e d := by
  obtain ⟨_, failed⟩ := Step.result_eq_error.1 failed
  exact (member_chunk shaped whole).of_error failed

theorem passDeclaration_chunk (shaped : Chunk (chunk.map (·.token)))
    (whole : c.rest = chunk ++ more) : c.passDeclaration.rest = more := by
  unfold Cursor.passDeclaration
  rw [whole]
  exact Cursor.skipDeclaration_chunk shaped.concludes c.previous

end Chunks

/-! ### Members one behind the other -/

def error? {ε α : Type} : Except ε α → Option ε
  | .error e => some e
  | .ok _ => none

/-- Chunks are read one by one, each as by itself. -/
theorem members_chunks {className : String} {chunks : List (List Lexeme)} {more : List Lexeme}
    (shaped : ∀ chunk ∈ chunks, Chunk (chunk.map (·.token)))
    (closed : ∀ l ∈ more.head?, l.token = .symbol .rightBrace) (eof : List Lexeme → Span)
    {c : Cursor} (whole : c.rest = chunks.flatten ++ more) :
    (c.members className).1
        = (chunks.map fun chunk => alone className (eof chunk) chunk).filterMap Except.toOption ∧
      (c.members className).2.1
        = (chunks.map fun chunk => alone className (eof chunk) chunk).filterMap error? ∧
      (c.members className).2.2.rest = more := by
  induction chunks generalizing c with
  | nil =>
    rw [List.flatten_nil, List.nil_append] at whole
    rw [Cursor.members_of_closed (whole ▸ closed)]
    exact ⟨rfl, rfl, whole⟩
  | cons chunk chunks ih =>
    have first := shaped chunk List.mem_cons_self
    have others := fun {c} => @ih (fun chunk member => shaped chunk (.tail _ member)) c
    rw [List.flatten_cons, List.append_assoc] at whole
    obtain ⟨l, ts, rfl⟩ : ∃ l ts, chunk = l :: ts := by
      cases chunk with
      | nil => cases first.concludes
      | cons l ts => exact ⟨l, ts, rfl⟩
    have opened := first.concludes.ne_rightBrace
    cases outcome : alone className (eof (l :: ts)) (l :: ts) with
    | ok m =>
      obtain ⟨d, read, left⟩ := member_of_alone first whole outcome
      obtain ⟨ms, es, last⟩ := others left
      rw [Cursor.members_of_ok whole opened read, List.map_cons, outcome]
      exact ⟨congrArg (m :: ·) ms, es, last⟩
    | error e =>
      obtain ⟨d, failed⟩ := failure_of_alone first whole outcome
      obtain ⟨ms, es, last⟩ := others (passDeclaration_chunk first whole)
      rw [Cursor.members_of_error whole opened failed, List.map_cons, outcome]
      exact ⟨ms, congrArg (e :: ·) es, last⟩

/-! ### What is left behind a reader -/

/-- What is left of `whole`, next to itself. -/
def Tandem.suffix (whole : List Lexeme) (finish : Span) : Tandem :=
  .throughout Span.carries_id finish finish (fun ts ts' => ts' = ts ∧ ts <:+ whole) <| by
    rintro (_ | ⟨⟨t, s⟩, us⟩) _ ⟨rfl, suffix⟩
    · exact .inl ⟨rfl, rfl, rfl⟩
    · exact .inr ⟨t, s, us, us, rfl, rfl, rfl, (List.suffix_cons ..).trans suffix⟩

namespace Cursor

variable {c d : Cursor}

theorem facing_self (c : Cursor) (k : Nat) :
    (Tandem.suffix c.rest c.finish).Facing k c c := ⟨⟨rfl, List.suffix_refl _⟩, rfl, rfl⟩

theorem suffix_of_header {head : Header} (read : c.header.Gives head d) : d.rest <:+ c.rest := by
  obtain ⟨_, -, on⟩ := (Tandem.header_alike (c.facing_self 0)).of_ok read
  exact on.rest.2

theorem suffix_of_qualifiedName {name : String × Span} (read : c.qualifiedName.Gives name d) :
    d.rest <:+ c.rest := by
  obtain ⟨_, -, on⟩ := (Tandem.qualifiedName_alike (c.facing_self 0)).of_ok read
  exact on.rest.2

theorem suffix_of_expect {t : Token} {u : Unit} (read : (c.expect t).Gives u d) :
    d.rest <:+ c.rest := by
  obtain ⟨shorter, read⟩ := read
  unfold expect at read
  split at read
  · cases read
  · rename_i same
    split at read <;> cases read
    rw [same]
    exact List.suffix_cons ..

theorem importPath_suffix (start : Span) (c : Cursor) :
    (c.importPath start).2.rest <:+ c.rest := by
  unfold importPath
  split
  · exact List.suffix_refl _
  · rename_i d shorter read
    have path := suffix_of_qualifiedName ⟨shorter, read⟩
    split
    · exact path
    · rename_i e shorter' read'
      exact (suffix_of_expect ⟨shorter', read'⟩).trans path

theorem skipDeclaration_suffix (last : Span) (depth : Nat) (ts : List Lexeme) :
    (skipDeclaration last depth ts).2 <:+ ts := by
  fun_induction skipDeclaration last depth ts with
  | case1 | case3 => exact List.suffix_refl _
  | case4 | case6 => exact List.suffix_cons ..
  | case2 _ _ _ _ _ ih | case5 _ _ _ _ _ ih | case7 _ _ _ _ _ _ _ _ _ ih =>
    exact ih.trans (List.suffix_cons ..)

theorem imports_suffix (c : Cursor) : c.imports.2.2.rest <:+ c.rest := by
  induction c using Cursor.imports.induct with
  | case1 c s us whole _ _ _ i d _ read _ is es last _ ih =>
    have path := importPath_suffix s (c.past ⟨.keyword .import_, s⟩ us)
    rw [imports_of_import whole, read]
    rw [read] at path
    exact ih.trans (path.trans (whole ▸ List.suffix_cons ..))
  | case2 c s us whole _ _ _ e d _ read _ is es last _ ih =>
    have path := importPath_suffix s (c.past ⟨.keyword .import_, s⟩ us)
    have passed : d.passDeclaration.rest <:+ d.rest := skipDeclaration_suffix ..
    rw [imports_of_import whole, read]
    rw [read] at path
    exact ih.trans (passed.trans (path.trans (whole ▸ List.suffix_cons ..)))
  | case3 c other => exact ⟨[], congrArg (·.2.2.rest) (imports_of_other other)⟩

end Cursor

/-! ### Units -/

section Units

variable {u : CompilationUnit} {front body : List Lexeme} {l : Lexed}

/-- The opening of a class without members opens every class that starts alike. -/
theorem opening_read (opens : u.Rendered (front.map (·.token) ++ [.symbol .rightBrace]))
    (empty : u.decl.members = []) (whole : l.tokens = front ++ body) :
    ∃ head d, (Cursor.ofLexed l).imports.1.map Import.bare = u.imports.map Import.bare ∧
      (Cursor.ofLexed l).imports.2.1 = [] ∧
      ((Cursor.ofLexed l).imports.2.2.header).Gives head d ∧
      headerBare head = ⟨u.decl.modifiers, u.decl.name, u.decl.superclass.map TypeName.bare,
        u.decl.interfaces.map TypeName.bare⟩ ∧ d.rest = body := by
  generalize same : front.map (·.token) ++ [.symbol .rightBrace] = ts at opens
  cases opens with
  | @mk ks ts modifiers members =>
    rw [empty] at members
    cases members
    have tokens : (Cursor.ofLexed l).tokens
        = (u.imports.map Import.path).flatMap importTokens
          ++ (keywordTokens ks ++ .keyword .class_ :: .identifier u.decl.name
            :: (typeListTokens .extends_ u.decl.superclass.toList
              ++ (typeListTokens .implements u.decl.interfaces
                ++ .symbol .leftBrace :: body.map (·.token)))) := by
      have opening : front.map (·.token) = u.imports.flatMap (fun i => importTokens i.path)
          ++ (keywordTokens ks ++ .keyword .class_ :: .identifier u.decl.name
            :: (typeListTokens .extends_ u.decl.superclass.toList
              ++ (typeListTokens .implements u.decl.interfaces ++ [.symbol .leftBrace]))) := by
        refine List.append_cancel_right (same.trans ?_)
        simp
      have here : (Cursor.ofLexed l).tokens = l.tokens.map (·.token) := rfl
      rw [here, whole, List.map_append, opening, List.flatMap_map]
      simp
    obtain ⟨imports, noErrors, behind⟩ := imports_written tokens (modifiers.noImport _)
    obtain ⟨head, d, given, shape, left⟩ := Cursor.header_rendered modifiers behind
    -- the header was read to the tokens of the body; what is left are its lexemes themselves
    have suffix : d.rest <:+ l.tokens :=
      (Cursor.suffix_of_header given).trans (Cursor.imports_suffix _)
    have length : d.rest.length = body.length := by
      simpa [Cursor.tokens] using congrArg List.length left
    refine ⟨head, d, ?_, noErrors, given, shape, ?_⟩
    · rw [imports, List.map_map]
      rfl
    · exact (List.suffix_of_suffix_length_le suffix (whole ▸ List.suffix_append ..)
        length.le).eq_of_length length

/-- A class is what its header and its members are, if nothing but the closing brace is left. -/
theorem classDecl_of_members {c d : Cursor} {head : Cursor.Header} {close : Lexeme}
    (read : c.header.Gives head d) (closes : close.token = .symbol .rightBrace)
    (left : (d.members head.name).2.2.rest = [close]) :
    c.classDecl.1 = (d.members head.name).2.1 ∧ ∃ span e, e.rest = [] ∧
      c.classDecl.2.Gives ⟨head.modifiers, head.name, head.superclass, head.interfaces,
        (d.members head.name).1, span⟩ e := by
  obtain ⟨shorter, read⟩ := read
  obtain ⟨t, s⟩ := close
  obtain rfl : t = .symbol .rightBrace := closes
  unfold Cursor.classDecl
  rw [read]
  dsimp only
  simp only [Step.gives_upTo]
  generalize d.members head.name = body at left ⊢
  obtain ⟨ms, es, ⟨rest, finish, previous⟩⟩ := body
  obtain rfl : rest = [⟨.symbol .rightBrace, s⟩] := left
  exact ⟨trivial, _, _, rfl, _, rfl⟩

/-- Behind imports without errors, a source is what its class is. -/
theorem parse_of_classDecl {decl : ClassDecl} {e : Cursor}
    (imported : (Cursor.ofLexed l).imports.2.1 = [])
    (read : ((Cursor.ofLexed l).imports.2.2.classDecl).2.Gives decl e) (done : e.rest = []) :
    parse l = if ((Cursor.ofLexed l).imports.2.2.classDecl).1 = []
      then .ok ⟨(Cursor.ofLexed l).imports.1, decl⟩
      else .error ((Cursor.ofLexed l).imports.2.2.classDecl).1 := by
  unfold parse
  generalize (Cursor.ofLexed l).imports = imports at imported read ⊢
  obtain ⟨is, es, c⟩ := imports
  obtain rfl : es = [] := imported
  dsimp only at read ⊢
  generalize c.classDecl = outcome at read ⊢
  obtain ⟨es, step⟩ := outcome
  obtain ⟨shorter, rfl⟩ : step.Gives decl e := read
  simp only [done, List.isEmpty_nil, if_true, List.nil_append, List.append_nil]
  cases es <;> rfl

end Units

theorem error?_eq_none {ε α : Type} {r : Except ε α} : error? r = none ↔ ∃ a, r = .ok a := by
  cases r <;> simp [error?]

theorem error?_ok {ε α : Type} {rs : List (Except ε α)} (h : rs.filterMap error? = []) :
    rs = (rs.filterMap Except.toOption).map .ok := by
  induction rs with
  | nil => rfl
  | cons r rs ih =>
    cases r with
    | error e => cases h
    | ok a => exact congrArg (Except.ok a :: ·) (ih h)

/-- Members are isolated: whatever the other chunks of a class are, each is read as the member that
it is by itself, or reported with the error that it has by itself. -/
theorem parse_chunks {u : CompilationUnit} {l : Lexed} {front : List Lexeme}
    {chunks : List (List Lexeme)} {close : Lexeme}
    (opens : u.Rendered (front.map (·.token) ++ [.symbol .rightBrace]))
    (empty : u.decl.members = []) (shaped : ∀ chunk ∈ chunks, Chunk (chunk.map (·.token)))
    (closes : close.token = .symbol .rightBrace)
    (whole : l.tokens = front ++ (chunks.flatten ++ [close])) (eof : List Lexeme → Span) :
    let outcomes := chunks.map fun chunk => alone u.decl.name (eof chunk) chunk
    (∀ chunk ∈ chunks, ∀ m, alone u.decl.name (eof chunk) chunk = .ok m ↔
      IsMember u.decl.name (eof chunk) chunk m) ∧
    (∃ head body, ((Cursor.ofLexed l).imports.2.2.header).Gives head body ∧
      body.rest = chunks.flatten ++ [close] ∧
      (body.members head.name).1 = outcomes.filterMap Except.toOption ∧
      (body.members head.name).2.1 = outcomes.filterMap error?) ∧
    (match parse l with
      | .ok unit => outcomes = unit.decl.members.map .ok ∧
        CompilationUnit.bare ⟨unit.imports, { unit.decl with members := [] }⟩ = u.bare
      | .error errors => errors ≠ [] ∧ errors = outcomes.filterMap error?) ∧
    ((∃ unit, parse l = .ok unit) ↔
      ∀ chunk ∈ chunks, ∃ m, IsMember u.decl.name (eof chunk) chunk m) := by
  intro outcomes
  obtain ⟨head, body, imports, noErrors, read, shape, left⟩ := opening_read opens empty whole
  have name : head.name = u.decl.name := congrArg Cursor.Header.name shape
  obtain ⟨ms, es, last⟩ : (body.members head.name).1 = outcomes.filterMap Except.toOption ∧
      (body.members head.name).2.1 = outcomes.filterMap error? ∧
      (body.members head.name).2.2.rest = [close] := by
    rw [name]
    exact members_chunks shaped (by simp [closes]) eof left
  obtain ⟨errors, span, e, done, decl⟩ := classDecl_of_members read closes last
  have parsed := parse_of_classDecl noErrors decl done
  rw [errors, es, ms] at parsed
  have wellFormed : outcomes.filterMap error? = [] ↔
      ∀ chunk ∈ chunks, ∃ m, IsMember u.decl.name (eof chunk) chunk m := by
    rw [List.filterMap_eq_nil_iff, List.forall_mem_map]
    refine forall₂_congr fun chunk member => ?_
    simp only [error?_eq_none, isMember_iff (shaped chunk member)]
  refine ⟨fun chunk member m => (isMember_iff (shaped chunk member)).symm,
    ⟨head, body, read, left, ms, es⟩, ?_, ?_⟩
  · rw [parsed]
    by_cases failures : outcomes.filterMap error? = []
    · rw [if_pos failures]
      refine ⟨error?_ok failures, ?_⟩
      obtain ⟨modifiers, name, superclass, interfaces⟩ := head
      obtain ⟨rfl, rfl, extended, implemented⟩ := Cursor.Header.mk.inj shape
      simp only [CompilationUnit.bare, ClassDecl.bare, imports, extended, implemented, empty]
    · rw [if_neg failures]
      exact ⟨failures, rfl⟩
  · rw [← wellFormed, parsed]
    constructor
    · rintro ⟨unit, ok⟩
      by_contra failures
      rw [if_neg failures] at ok
      cases ok
    · intro failures
      exact ⟨_, if_pos failures⟩

end Classwright.Source

namespace Classwright.Sample

open Source

/-- The second member has no name, the fourth misses a semicolon and the last is seen twice. -/
def boxText : String :=
  "import util.Bag;
  public class Box extends Bag {
    int size;
    int = 4;
    Box() { }
    int get() { return size }
    private public int kept;
  }"

def boxTokens : List Token :=
  [.keyword .import_, .identifier "util", .symbol .dot, .identifier "Bag", .symbol .semicolon,
    .keyword .public_, .keyword .class_, .identifier "Box", .keyword .extends_, .identifier "Bag",
    .symbol .leftBrace,
    .primitive .int, .identifier "size", .symbol .semicolon,
    .primitive .int, .symbol .equal, .int 4, .symbol .semicolon,
    .identifier "Box", .symbol .leftParen, .symbol .rightParen, .symbol .leftBrace,
    .symbol .rightBrace,
    .primitive .int, .identifier "get", .symbol .leftParen, .symbol .rightParen, .symbol .leftBrace,
    .keyword .return_, .identifier "size", .symbol .rightBrace,
    .keyword .private_, .keyword .public_, .primitive .int, .identifier "kept", .symbol .semicolon,
    .symbol .rightBrace]

def box : Lexed := .numbered boxTokens

def boxFront : List Lexeme := box.tokens.take 11

def boxChunks : List (List Lexeme) :=
  [(box.tokens.drop 11).take 3, (box.tokens.drop 14).take 4, (box.tokens.drop 18).take 5,
    (box.tokens.drop 23).take 8, (box.tokens.drop 31).take 5]

/-- The class without its members. -/
def bareBox : CompilationUnit where
  imports := [⟨"util.Bag", .blank⟩]
  decl := ⟨{ visibility := some .visible }, "Box", some ⟨"Bag", 0, .blank⟩, [], [], .blank⟩

theorem bareBox_rendered :
    bareBox.Rendered (boxFront.map (·.token) ++ [.symbol .rightBrace]) := by
  have modifiers : bareBox.decl.modifiers.Rendered [.public_] :=
    ⟨by simp [isModifier, shownBy?], rfl, rfl, rfl⟩
  exact .mk (u := bareBox) modifiers .nil

theorem boxChunks_shaped : ∀ chunk ∈ boxChunks, Chunk (chunk.map (·.token)) := by
  have size : Chunk ([.primitive .int, .identifier "size"] ++ [.symbol .semicolon]) :=
    .semicolon (by decide)
  have unnamed : Chunk ([.primitive .int, .symbol .equal, .int 4] ++ [.symbol .semicolon]) :=
    .semicolon (by decide)
  have make : Chunk ([.identifier "Box", .symbol .leftParen, .symbol .rightParen]
      ++ .symbol .leftBrace :: ([] ++ [.symbol .rightBrace])) := .braces (by decide) .nil
  have get : Chunk ([.primitive .int, .identifier "get", .symbol .leftParen, .symbol .rightParen]
      ++ .symbol .leftBrace :: ([.keyword .return_, .identifier "size"]
        ++ [.symbol .rightBrace])) :=
    .braces (by decide) (.cons (by decide) (by decide) (.cons (by decide) (by decide) .nil))
  have kept : Chunk ([.keyword .private_, .keyword .public_, .primitive .int, .identifier "kept"]
      ++ [.symbol .semicolon]) := .semicolon (by decide)
  simp only [boxChunks, List.forall_mem_cons]
  exact ⟨size, unnamed, make, get, kept, by simp⟩

def boxCauses : List SyntaxCause :=
  [.unexpected [.identifier ""] (.symbol .equal),
    .unexpected [.symbol .semicolon] (.symbol .rightBrace), .repeatedVisibility]

/-- Three members are reported; the first and the third are read all the same. -/
theorem box_isolated : (scan boxText).toOption.map (·.tokens.map (·.token)) = some boxTokens ∧
    ∃ errors, parse box = .error errors ∧ errors.map (·.cause) = boxCauses ∧
    boxChunks.map (fun chunk => (alone "Box" .blank chunk).toOption.isSome)
      = [true, false, true, false, false] := by
  have whole : box.tokens
      = boxFront ++ (boxChunks.flatten ++ [⟨.symbol .rightBrace, ⟨36, 36, 0, 0⟩⟩]) := by
    decide +kernel
  have causes : ((boxChunks.map fun chunk => alone "Box" .blank chunk).filterMap error?).map
      (·.cause) = boxCauses := by decide +kernel
  obtain ⟨-, -, parsed, -⟩ := parse_chunks bareBox_rendered rfl boxChunks_shaped rfl whole
    fun _ => .blank
  refine ⟨by decide +kernel, ?_⟩
  cases read : parse box with
  | ok unit =>
    have fails : (parse box).toOption.isNone = true := by decide +kernel
    rw [read] at fails
    cases fails
  | error errors =>
    rw [read] at parsed
    refine ⟨errors, rfl, ?_, by decide +kernel⟩
    rw [parsed.2]
    exact causes

end Classwright.Sample

import Classwright.Proofs.Abreast
import Classwright.Source.Declaration

/-!
# Reading declarations abreast

Statements, members and headers are read alike from two sources that agree up to the token with
which the declaration ends. The members of a class and the imports in front of it are read one
behind the other, and a malformed one is passed over.
-/

namespace Classwright.Source

namespace Tandem

open Step Cursor

variable {T : Tandem} {k : Nat} {c c' : Cursor}

/-! ### Statements -/

theorem condition_alike (h : T.Facing k c c') :
    Alike T.move (Expr.relocate T.move) (T.On (T.within k)) (condition c) (condition c') :=
  (expectSymbol_alike h rfl).andThen fun _ _ _ _ _ on =>
    (expression_alike on.facing).andThen fun _ _ _ _ _ on =>
      (expectSymbol_alike on.facing rfl).map fun _ => rfl

theorem initializer_alike (h : T.On (T.within k) c c') :
    Alike T.move (Option.map (Expr.relocate T.move)) (T.On (T.within k)) (initializer c)
      (initializer c') := by
  refine (eat_alike h rfl).andMaybe fun found d d' _ _ on => ?_
  cases found with
  | true => exact alike_loosen.2 ((expression_alike on.facing).map fun _ => rfl)
  | false => exact .stay rfl on

theorem declaration_alike (h : T.Facing k c c') :
    Alike T.move (Stmt.relocate T.move) (T.On (T.past k)) (declaration c) (declaration c') := by
  refine (typeName_alike h).andThen fun type d d' _ _ on => ?_
  refine (expectIdentifier_alike on.facing).andThen fun name e e' _ _ on => ?_
  refine (initializer_alike on).maybeThen fun init g g' _ _ on => ?_
  refine (expectSemicolon_alike on.facing).mapAt fun _ i i' on => ?_
  rw [Stmt.relocate, T.move_through, h.span, on.previous]
  rfl

theorem terminated_alike {start : Span} {build build' : Expr → Span → Stmt}
    (h : T.Facing k c c')
    (same : ∀ e s, build' (e.relocate T.move) (T.move s) = (build e s).relocate T.move) :
    Alike T.move (Stmt.relocate T.move) (T.On (T.past k)) (terminated start build c)
      (terminated (T.move start) build' c') := by
  refine (expression_alike h).andThen fun value d d' _ _ on => ?_
  refine (expectSemicolon_alike on.facing).mapAt fun _ e e' on => ?_
  rw [← same, T.move_through, on.previous]

mutual

theorem statement_alike {k : Nat} {c c' : Cursor} (h : T.Facing (k + 1) c c') :
    Alike T.move (Stmt.relocate T.move) (T.On (T.within (k + 1))) (statement c)
      (statement c') := by
  rw [statement, statement]
  have plain : Alike T.move (Stmt.relocate T.move) (T.On (T.within (k + 1)))
      (c.terminated c.span fun e _ => .expr e) (c'.terminated c'.span fun e _ => .expr e) := by
    rw [h.span]
    exact terminated_alike h fun _ _ => rfl
  have declared : Alike T.move (Stmt.relocate T.move) (T.On (T.within (k + 1)))
      (if c.opensDeclaration then c.declaration
        else c.terminated c.span fun e _ => .expr e)
      (if c'.opensDeclaration then c'.declaration
        else c'.terminated c'.span fun e _ => .expr e) := by
    rw [opensDeclaration_facing h]
    split
    · exact declaration_alike h
    · exact plain
  obtain ⟨p, p', rfl, rfl, -⟩ | ⟨t, s, us, us', p, p', whole, rfl, next⟩ := h.cases
  · exact plain
  · have size : us.length + 1 = c.remaining := (congrArg remaining whole).symm
    rw [whole] at declared ⊢
    dsimp only
    cases t with
    | symbol sign =>
      cases sign with
      | leftBrace =>
        have on := Sides.on_past (S := T.toSides) (t := .symbol .leftBrace) (next.opening rfl)
          s p p'
        dsimp only
        rw [alike_behind]
        refine (blockTail_alike on.facing).mapAt fun body d d' on => ?_
        rw [Stmt.relocate, T.move_through, ← on.previous]
      | semicolon => exact ⟨rfl, Sides.on_past (next.semicolon rfl) s p p'⟩
      | _ => exact declared
    | keyword word =>
      have on := next.on rfl s p p'
      cases word with
      | return_ =>
        dsimp only
        rw [alike_behind, on.facing.atSymbol]
        split
        · refine (expectSemicolon_alike on.facing).mapAt fun _ d d' on => ?_
          rw [Stmt.relocate, T.move_through, ← on.previous]
          rfl
        · exact terminated_alike on.facing fun _ _ => rfl
      | throw =>
        dsimp only
        rw [alike_behind]
        exact terminated_alike on.facing fun _ _ => rfl
      | if_ =>
        dsimp only
        rw [alike_behind]
        refine (condition_alike on.facing).andThen fun test d d' shorter₁ _ on => ?_
        refine (statement_alike on.facing).andMaybe fun thenBranch e e' shorter₂ _ on => ?_
        refine (eat_alike on rfl).andMaybe fun found g g' shorter₃ _ on => ?_
        cases found with
        | true =>
          simp only [id, if_true, alike_loosen]
          refine (statement_alike on.facing).mapAt fun elseBranch i i' on => ?_
          rw [Stmt.relocate, T.move_through, ← on.previous]
        | false =>
          refine .stay ?_ on
          rw [Stmt.relocate, T.move_through, ← on.previous]
      | while_ =>
        dsimp only
        rw [alike_behind]
        refine (condition_alike on.facing).andThen fun test d d' shorter₁ _ on => ?_
        refine (statement_alike on.facing).mapAt fun body e e' on => ?_
        rw [Stmt.relocate, T.move_through, ← on.previous]
      | final =>
        dsimp only
        rw [alike_behind]
        exact declaration_alike on.facing
      | _ => exact declared
    | _ => exact declared
termination_by 2 * c.remaining
decreasing_by
  all_goals simp only [Cursor.past, remaining] at *; omega

theorem blockTail_alike {k : Nat} {c c' : Cursor} (h : T.Facing (k + 1) c c') :
    Alike T.move (Stmt.relocateAll T.move) (T.On (T.past k)) (blockTail c) (blockTail c') := by
  rw [blockTail, blockTail]
  have wrong := h.unexpected [.symbol .rightBrace]
  have more : Alike T.move (Stmt.relocateAll T.move) (T.On (T.past k))
      ((statement c).andThen fun s d _ => (blockTail d).map fun ss => s :: ss)
      ((statement c').andThen fun s d _ => (blockTail d).map fun ss => s :: ss) :=
    (statement_alike h).andThen fun first d d' shorter _ on =>
      (blockTail_alike on.facing).map fun _ => rfl
  obtain ⟨p, p', rfl, rfl, -⟩ | ⟨t, s, us, us', p, p', rfl, rfl, next⟩ := h.cases
  · exact wrong
  · dsimp only
    by_cases close : t = .symbol .rightBrace
    · subst close
      rw [if_pos rfl, if_pos rfl]
      exact ⟨rfl, Sides.on_past (next.closing k rfl rfl) s p p'⟩
    · rw [if_neg close, if_neg close]
      exact more
termination_by 2 * c.remaining + 1

end

theorem block_alike (h : T.Facing k c c') :
    Alike T.move (Block.relocate T.move) (T.On (T.past k)) (block c) (block c') := by
  refine (expect_alike h fun _ _ next => next.opening rfl).andThen fun _ d d' _ _ on => ?_
  refine (blockTail_alike on.facing).mapAt fun body e e' on => ?_
  rw [Block.relocate, T.move_through, h.span, on.previous]

/-! ### Members -/

theorem modifiersFrom_alike {c c' : Cursor} (h : T.Facing k c c') (m : Modifiers) :
    Alike T.move id (T.Facing k) (modifiersFrom m c) (modifiersFrom m c') := by
  rw [modifiersFrom, modifiersFrom]
  obtain ⟨p, p', rfl, rfl, -⟩ | ⟨t, s, us, us', p, p', whole, rfl, next⟩ := h.cases
  · exact .stay rfl h
  · have size : us.length + 1 = c.remaining := (congrArg remaining whole).symm
    rw [whole] at h ⊢
    cases t with
    | keyword word =>
      dsimp only
      cases applied : applyModifier m word with
      | none => exact .stay rfl h
      | some result =>
        cases result with
        | error cause => rfl
        | ok m' =>
          dsimp only
          rw [alike_loosen, alike_behindMaybe]
          exact modifiersFrom_alike (next.on rfl s p p').facing m'
    | _ => exact .stay rfl h
termination_by c.remaining
decreasing_by simp only [Cursor.past, remaining] at *; omega

theorem typeList_alike {c c' : Cursor} (h : T.Facing k c c') :
    Alike T.move (List.map (TypeName.relocate T.move)) (T.On (T.within k)) (typeList c)
      (typeList c') := by
  rw [typeList, typeList]
  refine (typeName_alike h).andMaybe fun type d d' shorter _ on => ?_
  obtain ⟨p, p', rfl, rfl, -⟩ | ⟨t, s, us, us', p, p', rfl, rfl, next⟩ := on.facing.cases
  · exact .stay rfl on
  · have size : us.length + 1 < c.remaining := shorter
    dsimp only
    by_cases comma : t = .symbol .comma
    · subst comma
      rw [if_pos rfl, if_pos rfl, alike_loosen, alike_behind]
      exact (typeList_alike (next.on rfl s p p').facing).map fun _ => rfl
    · rw [if_neg comma, if_neg comma]
      exact .stay rfl on
termination_by c.remaining
decreasing_by simp only [Cursor.past, remaining] at *; omega

theorem typesAfter_alike {word : Keyword} (h : T.On (T.within k) c c') :
    Alike T.move (List.map (TypeName.relocate T.move)) (T.On (T.within k)) (typesAfter word c)
      (typesAfter word c') := by
  refine (eat_alike h rfl).andMaybe fun found d d' _ _ on => ?_
  cases found with
  | true => exact alike_loosen.2 (typeList_alike on.facing)
  | false => exact .stay rfl on

theorem paramTail_alike {c c' : Cursor} (h : T.Facing k c c') :
    Alike T.move (List.map (Param.relocate T.move)) (T.On (T.within k)) (paramTail c)
      (paramTail c') := by
  rw [paramTail, paramTail]
  refine (typeName_alike h).andThen fun type d d' shorter _ on => ?_
  refine (expectIdentifier_alike on.facing).andThen ?_
  rintro ⟨name, nameSpan⟩ e e' shorter' - on
  have wrong := on.facing.unexpected [.symbol .rightParen]
  have param : (⟨type.relocate T.move, name,
      (type.relocate T.move).span.through (T.move nameSpan)⟩ : Param)
        = Param.relocate T.move ⟨type, name, type.span.through nameSpan⟩ := by
    rw [Param.relocate, T.move_through]
    rfl
  have close := (expectSymbol_alike (s := .rightParen) on.facing rfl).map
    (g := fun _ => [Param.mk type name (type.span.through nameSpan)])
    (q := fun _ => [Param.relocate T.move ⟨type, name, type.span.through nameSpan⟩])
    (w := List.map (Param.relocate T.move)) fun _ => rfl
  simp only [Prod.map, id, param]
  obtain ⟨p, p', rfl, rfl, -⟩ | ⟨t, s, us, us', p, p', rfl, rfl, next⟩ := on.facing.cases
  · exact wrong
  · have size : us.length + 1 < d.remaining := shorter'
    dsimp only
    by_cases comma : t = .symbol .comma
    · subst comma
      rw [if_pos rfl, if_pos rfl, alike_behind]
      exact (paramTail_alike (next.on rfl s p p').facing).map fun _ => rfl
    · rw [if_neg comma, if_neg comma]
      exact close
termination_by c.remaining
decreasing_by simp only [Cursor.past, remaining] at *; omega

theorem params_alike (h : T.Facing k c c') :
    Alike T.move (List.map (Param.relocate T.move)) (T.On (T.within k)) (params c)
      (params c') := by
  refine (expectSymbol_alike h rfl).andThen fun _ d d' _ _ on => ?_
  rw [on.facing.atSymbol]
  split
  · exact (expectSymbol_alike on.facing rfl).map fun _ => rfl
  · exact paramTail_alike on.facing

theorem returnType_alike (h : T.Facing k c c') :
    Alike T.move (Option.map (TypeName.relocate T.move)) (T.On (T.within k)) (returnType c)
      (returnType c') := by
  have named := (typeName_alike h).map (g := some) (q := some)
    (w := Option.map (TypeName.relocate T.move)) fun _ => rfl
  obtain ⟨p, p', rfl, rfl, -⟩ | ⟨t, s, us, us', p, p', rfl, rfl, next⟩ := h.cases
  · exact named
  · cases t with
    | keyword word =>
      cases word with
      | void => exact ⟨rfl, next.on rfl s p p'⟩
      | _ => exact named
    | _ => exact named

theorem member_alike (className : String) (h : T.Facing k c c') :
    Alike T.move (Member.relocate T.move) (T.On (T.past k)) (member className c)
      (member className c') := by
  have start := h.span
  refine (modifiersFrom_alike h {}).maybeThen fun modifiers d d' _ _ h => ?_
  rw [opensConstructor_facing h]
  split
  · refine (expectIdentifier_alike h).andThen ?_
    rintro ⟨name, nameSpan⟩ e e' - - on
    refine (params_alike on.facing).andThen fun params g g' _ _ on => ?_
    refine (block_alike on.facing).map fun body => ?_
    simp only [Member.relocate, ConstructorDecl.relocate, T.move_through, start]
    rfl
  · refine (returnType_alike h).andThen fun type e e' _ _ on => ?_
    refine (expectIdentifier_alike on.facing).andThen ?_
    rintro ⟨name, nameSpan⟩ g g' - - on
    simp only [Prod.map, id]
    rw [on.facing.atSymbol]
    split
    · refine (params_alike on.facing).andThen fun params i i' _ _ on => ?_
      refine (typesAfter_alike on).maybeThen fun throws j j' _ _ on => ?_
      refine (block_alike on.facing).map fun body => ?_
      simp only [Member.relocate, MethodDecl.relocate, T.move_through, start]
      rfl
    · cases type with
      | none => rfl
      | some type =>
        refine (initializer_alike on).maybeThen fun init i i' _ _ on => ?_
        refine (expect_alike on.facing fun _ _ next => next.semicolon rfl).mapAt
          fun _ j j' on => ?_
        simp only [Member.relocate, FieldDecl.relocate, T.move_through, start, on.previous]

/-! ### Headers -/

theorem extended_alike (h : T.On (T.within k) c c') :
    Alike T.move (Option.map (TypeName.relocate T.move)) (T.On (T.within k)) (extended c)
      (extended c') := by
  refine (eat_alike h rfl).andMaybe fun found d d' _ _ on => ?_
  cases found with
  | true => exact alike_loosen.2 ((typeName_alike on.facing).map fun _ => rfl)
  | false => exact .stay rfl on

theorem header_alike (h : T.Facing k c c') :
    Alike T.move (Header.relocate T.move) (T.On (T.within (k + 1))) (header c) (header c') := by
  refine (modifiersFrom_alike h {}).maybeThen fun modifiers d d' _ _ h => ?_
  refine (expect_alike h fun _ _ next => next.free rfl).andThen fun _ e e' _ _ on => ?_
  refine (expectIdentifier_alike on.facing).andThen ?_
  rintro ⟨name, nameSpan⟩ g g' - - on
  refine (extended_alike on).maybeThen fun superclass i i' _ _ on => ?_
  refine (typesAfter_alike on).maybeThen fun interfaces j j' _ _ on => ?_
  exact (expect_alike on.facing fun _ _ next => next.opening rfl).map fun _ => rfl

end Tandem

namespace Cursor

/-! ### Members one behind the other -/

section Members

variable {className : String} {first : Lexeme} {rest : List Lexeme} {m : Member}
  {e : SyntaxError} {c d : Cursor}

/-- There are no members in front of a closing brace or the end. -/
theorem members_of_closed (closed : ∀ l ∈ c.rest.head?, l.token = .symbol .rightBrace) :
    members className c = ([], [], c) := by
  rw [members]
  split
  · rfl
  · rename_i same
    rw [dif_pos (closed _ (by rw [same]; rfl))]

theorem members_of_ok (whole : c.rest = first :: rest)
    (opened : first.token ≠ .symbol .rightBrace) (read : (member className c).Gives m d) :
    members className c = (m :: (members className d).1, (members className d).2) := by
  obtain ⟨shorter, read⟩ := read
  rw [members]
  split
  · rename_i same
    cases same.symm.trans whole
  · rename_i same
    cases same.symm.trans whole
    rw [dif_neg opened]
    split
    · rename_i read'
      cases read'.symm.trans read
      rfl
    · rename_i read'
      cases read'.symm.trans read

theorem members_of_error (whole : c.rest = first :: rest)
    (opened : first.token ≠ .symbol .rightBrace) (failed : member className c = .error e d) :
    members className c = ((members className c.passDeclaration).1,
      e :: (members className c.passDeclaration).2.1,
      (members className c.passDeclaration).2.2) := by
  rw [members]
  split
  · rename_i same
    cases same.symm.trans whole
  · rename_i same
    cases same.symm.trans whole
    rw [dif_neg opened]
    split
    · rename_i failed'
      cases failed'.symm.trans failed
    · rename_i failed'
      cases failed'.symm.trans failed
      rfl

end Members

/-! ### Imports -/

section Imports

variable {rest : List Lexeme} {c : Cursor}

/-- There are no imports in front of a token that is not the keyword. -/
theorem imports_of_other (other : ∀ s us, c.rest ≠ ⟨.keyword .import_, s⟩ :: us) :
    imports c = ([], [], c) := by
  rw [imports]
  split
  · rename_i same
    exact absurd same (other _ _)
  · rfl

theorem imports_of_import {s : Span} (whole : c.rest = ⟨.keyword .import_, s⟩ :: rest) :
    imports c = match importPath s (c.past ⟨.keyword .import_, s⟩ rest) with
      | (.ok i, d) => (i :: (imports d).1, (imports d).2)
      | (.error e, d) => ((imports d.passDeclaration).1, e :: (imports d.passDeclaration).2.1,
          (imports d.passDeclaration).2.2) := by
  rw [imports]
  split
  · rename_i same
    cases same.symm.trans whole
    simp only
    split
    · rename_i read _
      simp only [Cursor.past] at read
      rw [Cursor.past, read]
    · rename_i read _
      simp only [Cursor.past] at read
      rw [Cursor.past, read]
  · rename_i other
    exact (other _ _ whole).elim

end Imports

end Cursor

end Classwright.Source

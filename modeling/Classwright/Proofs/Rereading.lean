import Classwright.Proofs.Climbing

/-!
# Written trees are read back

The parser recovers a tree from every written form of it: from its tokens in any layout it makes the
tree again, up to places. Names are not looked at; whatever a token calls itself is the name. The
`else` of a statement is asked for as soon as a statement in front of it ends, so only a branch that
ends with no open `if` may stand in front of one.
-/

namespace Classwright.Source

open Step Cursor Synthesis

/-! ### Statements -/

theorem TypeName.spelled (t : TypeName) : SpellsType t.tokens t.bare :=
  fun _ ends => typeAt?_tokens t ends

/-- A written type starts with a primitive type or a name, and no parenthesis follows. -/
theorem TypeName.tokens_head (t : TypeName) :
    ∃ u us, t.tokens = u :: us ∧ (u.isIdentifier = true ∨ ∃ kind, u = .primitive kind) ∧
      us.head? ≠ some (.symbol .leftParen) := by
  have noParen : (bracketTokens t.dims).head? ≠ some (.symbol .leftParen) := by
    cases t.dims <;> simp [bracketTokens]
  unfold TypeName.tokens
  cases Primitive.ofKeyword? t.name with
  | some kind => exact ⟨_, _, rfl, .inr ⟨kind, rfl⟩, noParen⟩
  | none =>
    unfold nameTokens
    rcases parts : nameParts t.name with _ | ⟨part, _ | ⟨q, rest⟩⟩
    · exact absurd parts (nameParts_ne_nil t.name)
    · exact ⟨_, _, rfl, .inl rfl, noParen⟩
    · exact ⟨_, _, rfl, .inl rfl, by simp⟩

/-- Tokens that no keyword or sign of a statement is. -/
def isPlain (t : Token) : Prop :=
  startsCastOperand t = true ∨ t = .symbol .plus ∨ t = .symbol .minus ∨ ∃ kind, t = .primitive kind

theorem isPlain_of_isIdentifier {t : Token} (h : t.isIdentifier = true) : isPlain t := by
  cases t with
  | identifier x => exact .inl rfl
  | _ => cases h

theorem Expr.Rendered.plain {p : Nat} {e : Expr} {ts : List Token} (h : e.Rendered p ts) :
    ∃ t us, ts = t :: us ∧ isPlain t := by
  obtain ⟨t, us, rfl, starts | plus | minus⟩ := h.leftEdge.head
  · exact ⟨t, us, rfl, .inl starts⟩
  · exact ⟨t, us, rfl, .inr (.inl plus)⟩
  · exact ⟨t, us, rfl, .inr (.inr (.inl minus))⟩

theorem not_plain {t : Token} (plain : isPlain t) :
    t ≠ .symbol .rightBrace ∧ t ≠ .keyword .else_ ∧ t ≠ .symbol .semicolon := by
  refine ⟨?_, ?_, ?_⟩ <;> rintro rfl <;>
    · obtain h | h | h | ⟨kind, h⟩ := plain <;> cases h

/-- No statement starts with a closing brace or with `else`. -/
theorem Stmt.Rendered.head {s : Stmt} {ts : List Token} (h : s.Rendered ts) :
    ∃ t us, ts = t :: us ∧ t ≠ .symbol .rightBrace ∧ t ≠ .keyword .else_ := by
  cases h with
  | @declare type _ _ _ _ final _ =>
    cases final with
    | true => exact ⟨_, _, rfl, by decide, by decide⟩
    | false =>
      obtain ⟨u, us, tokens, starts, _⟩ := type.tokens_head
      rw [tokens]
      refine ⟨u, _, rfl, ?_⟩
      rcases starts with name | ⟨kind, rfl⟩
      · exact ⟨(not_plain (isPlain_of_isIdentifier name)).1,
          (not_plain (isPlain_of_isIdentifier name)).2.1⟩
      · exact ⟨by simp, by simp⟩
  | expr value =>
    obtain ⟨t, us, rfl, plain⟩ := value.plain
    exact ⟨t, _, rfl, (not_plain plain).1, (not_plain plain).2.1⟩
  | _ => exact ⟨_, _, rfl, by decide, by decide⟩

/-- What stands behind a field's name opens no parameters. -/
theorem InitRendered.head {init : Option Expr} {ts : List Token} (h : InitRendered init ts)
    (rest : List Token) :
    (ts ++ Token.symbol .semicolon :: rest).head? ≠ Option.some (.symbol .leftParen) := by
  cases h <;> simp

namespace Cursor

variable {c : Cursor} {rest : List Token}

theorem initializer_rendered {init : Option Expr} {ts : List Token} (h : InitRendered init ts)
    (tokens : c.tokens = ts ++ rest) (ends : Ends 0 rest) :
    (c.initializer).Reads (Option.map Expr.bare) (init.map Expr.bare) rest := by
  unfold initializer
  cases h with
  | none =>
    have absent : c.tokens.head? ≠ some (.symbol .equal) := by
      rw [tokens]
      intro head
      exact absurd (ends _ head) (by decide)
    refine (reads_eat_none absent).andMaybe ?_
    rintro _ d _ rfl left
    simp only [Bool.false_eq_true, if_false]
    exact reads_stay_of rfl (left.trans tokens)
  | some value =>
    refine (reads_eat_some tokens).andMaybe ?_
    rintro _ d _ rfl left
    simp only [if_true]
    rw [reads_loosen]
    refine (expression_rendered value left ends).map fun e same => ?_
    rw [Option.map_some, Option.map_some, same]

theorem declaration_rendered {type : TypeName} {name : String} {init : Option Expr} {s : Span}
    {ts : List Token} (h : InitRendered init ts)
    (tokens : c.tokens = type.tokens
      ++ .identifier name :: (ts ++ .symbol .semicolon :: rest)) :
    (c.declaration).Reads Stmt.bare (Stmt.declare type name init s).bare rest := by
  unfold declaration
  have typed : typeAt? c.tokens
      = some (type.bare, .identifier name :: (ts ++ .symbol .semicolon :: rest)) := by
    rw [tokens]
    exact type.spelled ⟨by simp, by simp⟩
  refine (reads_typeName typed).andThen fun type' d₁ _ same₁ left₁ => ?_
  refine (reads_expectIdentifier left₁).andThen ?_
  rintro ⟨name', span⟩ d₂ _ rfl left₂
  have ends : Ends 0 (.symbol .semicolon :: rest) := ends_cons.2 (by decide)
  refine (initializer_rendered h left₂ ends).maybeThen fun init' d₃ _ same₃ left₃ => ?_
  refine (reads_expectSemicolon left₃).mapAt fun _ d₄ _ => ?_
  rw [Stmt.bare, Stmt.bare, same₁, same₃]

theorem terminated_rendered {e : Expr} {ts : List Token} {start : Span} {y : Stmt}
    {build : Expr → Span → Stmt} (h : e.Rendered 0 ts)
    (tokens : c.tokens = ts ++ .symbol .semicolon :: rest)
    (shape : ∀ e' s, e'.bare = e.bare → (build e' s).bare = y) :
    (c.terminated start build).Reads Stmt.bare y rest := by
  unfold terminated
  have ends : Ends 0 (.symbol .semicolon :: rest) := ends_cons.2 (by decide)
  refine (expression_rendered h tokens ends).andThen fun e' d _ same left => ?_
  exact (reads_expectSemicolon left).mapAt fun _ d' _ => shape e' _ same

theorem condition_rendered {e : Expr} {ts : List Token} (h : e.Rendered 0 ts)
    (tokens : c.tokens = .symbol .leftParen :: (ts ++ .symbol .rightParen :: rest)) :
    (c.condition).Reads Expr.bare e.bare rest := by
  unfold condition
  refine (reads_expectSymbol tokens).andThen fun _ d₁ _ _ left₁ => ?_
  have ends : Ends 0 (.symbol .rightParen :: rest) := ends_cons.2 (by decide)
  refine (expression_rendered h left₁ ends).andThen fun e' d₂ _ same left₂ => ?_
  exact (reads_expectSymbol left₂).map fun _ _ => same

/-- A statement that starts with no keyword or sign of its own. -/
theorem statement_plain {t : Token} {ts : List Token} (tokens : c.tokens = t :: ts)
    (plain : isPlain t) : statement c = if declarationAhead c.tokens then c.declaration
      else c.terminated c.span fun e _ => .expr e := by
  obtain ⟨s, ls, f, p, rfl, _⟩ := eq_of_tokens_cons tokens
  rw [statement, ← opensDeclaration_eq]
  simp only
  split
  case h_8 => rfl
  all_goals obtain h | h | h | ⟨kind, h⟩ := plain <;> cases h

theorem declarationAhead_tokens (type : TypeName) {name : String} {us : List Token} :
    declarationAhead (type.tokens ++ .identifier name :: us) = true := by
  unfold declarationAhead
  rw [type.spelled ⟨by simp, by simp⟩]
  rfl

mutual

theorem statement_rendered {s : Stmt} {ts rest : List Token} {c : Cursor} (h : s.Rendered ts)
    (tokens : c.tokens = ts ++ rest)
    (noElse : s.endsOpen = true → rest.head? ≠ some (.keyword .else_)) :
    (statement c).Reads Stmt.bare s.bare rest := by
  cases h with
  | @block body s ts h =>
    simp only [List.cons_append, List.append_assoc, List.nil_append] at tokens
    obtain ⟨s', ls, f, p, rfl, behind⟩ := past_of_tokens_cons tokens
    rw [statement]
    simp only
    rw [reads_behind]
    refine (blockTail_rendered h behind).mapAt fun body d same => ?_
    rw [Stmt.bare, Stmt.bare, same]
  | @declare type name init s ts final h =>
    cases final with
    | true =>
      simp only [List.cons_append, List.append_assoc, List.nil_append, if_true] at tokens
      obtain ⟨s', ls, f, p, rfl, behind⟩ := past_of_tokens_cons tokens
      rw [statement]
      simp only
      rw [reads_behind]
      exact declaration_rendered h behind
    | false =>
      simp only [List.cons_append, List.append_assoc, List.nil_append, if_false,
        Bool.false_eq_true] at tokens
      obtain ⟨u, us, split, starts, _⟩ := type.tokens_head
      have plain : isPlain u := by
        rcases starts with name | primitive
        · exact isPlain_of_isIdentifier name
        · exact .inr (.inr (.inr primitive))
      have whole := tokens
      rw [split, List.cons_append] at whole
      rw [statement_plain whole plain, tokens, declarationAhead_tokens, if_pos rfl]
      exact declaration_rendered h tokens
  | ret =>
    obtain ⟨s', ls, f, p, rfl, behind⟩ := past_of_tokens_cons tokens
    rw [statement]
    simp only
    rw [reads_behind, if_pos (atSymbol_of_tokens behind)]
    refine (reads_expectSemicolon behind).mapAt fun _ d _ => ?_
    rw [Stmt.bare, Stmt.bare]
  | @retValue e s ts h =>
    simp only [List.cons_append, List.append_assoc, List.nil_append] at tokens
    obtain ⟨s', ls, f, p, rfl, behind⟩ := past_of_tokens_cons tokens
    rw [statement]
    simp only
    have noSemicolon : (past ⟨⟨.keyword .return_, s'⟩ :: ls, f, p⟩ ⟨.keyword .return_, s'⟩
        ls).atSymbol .semicolon = false := by
      obtain ⟨t, us, rfl, plain⟩ := h.plain
      rw [atSymbol_eq, behind]
      simpa using (not_plain plain).2.2
    rw [reads_behind, if_neg (by rw [noSemicolon]; decide)]
    refine terminated_rendered h behind fun e' s same => ?_
    rw [Stmt.bare, Stmt.bare, Option.map_some, Option.map_some, same]
  | @ifThen x t s cs ts condition thenBranch =>
    simp only [List.cons_append, List.append_assoc] at tokens
    obtain ⟨s', ls, f, p, rfl, behind⟩ := past_of_tokens_cons tokens
    rw [statement]
    simp only
    rw [reads_behind]
    have noElse' := noElse rfl
    refine (condition_rendered condition behind).andThen fun test d₁ _ same₁ left₁ => ?_
    refine (statement_rendered thenBranch left₁ fun _ => noElse').andMaybe
      fun t' d₂ _ same₂ left₂ => ?_
    refine (reads_eat_none (by rw [left₂]; exact noElse')).andMaybe ?_
    rintro _ d₃ _ rfl left₃
    simp only [Bool.false_eq_true, if_false]
    refine reads_stay_of ?_ (left₃.trans left₂)
    rw [Stmt.bare, Stmt.bare, same₁, same₂]
  | @ifElse x t e s cs ts us condition closed thenBranch elseBranch =>
    simp only [List.cons_append, List.append_assoc] at tokens
    obtain ⟨s', ls, f, p, rfl, behind⟩ := past_of_tokens_cons tokens
    rw [statement]
    simp only
    rw [reads_behind]
    refine (condition_rendered condition behind).andThen fun test d₁ _ same₁ left₁ => ?_
    have closed' : t.endsOpen = true →
        (.keyword .else_ :: (us ++ rest) : List Token).head? ≠ some (.keyword .else_) := by
      rw [closed]
      exact fun open_ => nomatch open_
    refine (statement_rendered thenBranch left₁ closed').andMaybe fun t' d₂ _ same₂ left₂ => ?_
    refine (reads_eat_some left₂).andMaybe ?_
    rintro _ d₃ _ rfl left₃
    simp only [if_true]
    rw [reads_loosen]
    refine (statement_rendered elseBranch left₃ noElse).mapAt fun e' d₄ same₄ => ?_
    rw [Stmt.bare, Stmt.bare, same₁, same₂, same₄]
  | @loop x b s cs ts condition body =>
    simp only [List.cons_append, List.append_assoc] at tokens
    obtain ⟨s', ls, f, p, rfl, behind⟩ := past_of_tokens_cons tokens
    rw [statement]
    simp only
    rw [reads_behind]
    refine (condition_rendered condition behind).andThen fun test d₁ _ same₁ left₁ => ?_
    refine (statement_rendered body left₁ noElse).mapAt fun b' d₂ same₂ => ?_
    rw [Stmt.bare, Stmt.bare, same₁, same₂]
  | @throw e s ts h =>
    simp only [List.cons_append, List.append_assoc, List.nil_append] at tokens
    obtain ⟨s', ls, f, p, rfl, behind⟩ := past_of_tokens_cons tokens
    rw [statement]
    simp only
    rw [reads_behind]
    refine terminated_rendered h behind fun e' s same => ?_
    rw [Stmt.bare, Stmt.bare, same]
  | @expr e ts h =>
    rw [List.append_assoc, List.singleton_append] at tokens
    obtain ⟨t, us, split, plain⟩ := h.plain
    have whole := tokens
    rw [split, List.cons_append] at whole
    have noType : declarationAhead c.tokens = false := by
      rw [tokens]
      exact h.leftEdge.declarationAhead
    rw [statement_plain whole plain, noType, if_neg (by decide)]
    refine terminated_rendered h tokens fun e' s same => ?_
    rw [Stmt.bare, Stmt.bare, same]
  | empty =>
    obtain ⟨s', ls, f, p, rfl, behind⟩ := past_of_tokens_cons tokens
    rw [statement]
    simp only
    refine ⟨_, _, gives_ok.2 ⟨rfl, rfl⟩, ?_, behind⟩
    rw [Stmt.bare, Stmt.bare]
termination_by 2 * ts.length
decreasing_by
  all_goals subst_vars
  all_goals simp_wf
  all_goals omega

/-- Statements are read through the brace that closes them. -/
theorem blockTail_rendered {ss : List Stmt} {ts rest : List Token} {c : Cursor}
    (h : Stmt.AllRendered ss ts) (tokens : c.tokens = ts ++ .symbol .rightBrace :: rest) :
    (blockTail c).Reads Stmt.bareAll (Stmt.bareAll ss) rest := by
  cases h with
  | nil =>
    obtain ⟨s', ls, f, p, rfl, behind⟩ := past_of_tokens_cons tokens
    rw [blockTail]
    simp only [if_true]
    exact ⟨_, _, gives_ok.2 ⟨rfl, rfl⟩, rfl, behind⟩
  | @cons s ss ts us first others =>
    rw [List.append_assoc] at tokens
    obtain ⟨t, more, split, notClose, notElse⟩ := first.head
    have next : (us ++ .symbol .rightBrace :: rest).head? ≠ some (.keyword .else_) := by
      cases others with
      | nil => simp
      | cons second _ =>
        obtain ⟨u, more', rfl, _, notElse'⟩ := second.head
        simpa using notElse'
    have read : ((statement c).andThen fun s d _ => (blockTail d).map fun ss => s :: ss).Reads
        Stmt.bareAll (Stmt.bareAll (s :: ss)) rest := by
      refine (statement_rendered first tokens fun _ => next).andThen fun s' d _ same left => ?_
      refine (blockTail_rendered others left).map fun ss' same' => ?_
      rw [Stmt.bareAll, Stmt.bareAll, same, same']
    have whole := tokens
    rw [split, List.cons_append] at whole
    obtain ⟨s', ls, f, p, rfl, behind⟩ := past_of_tokens_cons whole
    rw [blockTail]
    simp only
    rw [if_neg notClose]
    exact read
termination_by 2 * ts.length + 1
decreasing_by
  all_goals subst_vars
  all_goals simp only [List.length_append, List.length_cons]
  all_goals omega

end

theorem block_rendered {b : Block} {ts : List Token} (h : b.Rendered ts)
    (tokens : c.tokens = ts ++ rest) : (c.block).Reads Block.bare b.bare rest := by
  obtain ⟨us, body, rfl⟩ := h
  simp only [List.cons_append, List.append_assoc, List.nil_append] at tokens
  unfold block
  refine (reads_expectSymbol tokens).andThen fun _ d _ _ left => ?_
  refine (blockTail_rendered body left).mapAt fun body' e same => ?_
  rw [Block.bare, Block.bare, same]

/-! ### Members -/

theorem modifiersFrom_rendered {ks : List Keyword} {m m' : Modifiers} {c : Cursor}
    (modifiers : ∀ k ∈ ks, isModifier k = true)
    (visibility : m.visibility.toList ++ ks.filterMap shownBy? = m'.visibility.toList)
    (isStatic : m'.isStatic = (m.isStatic || ks.contains .static))
    (isFinal : m'.isFinal = (m.isFinal || ks.contains .final))
    (tokens : c.tokens = keywordTokens ks ++ rest)
    (stop : ∀ k, rest.head? = some (.keyword k) → isModifier k = false) :
    (modifiersFrom m c).Reads id m' rest := by
  induction ks generalizing m c with
  | nil =>
    have same : m = m' := by
      obtain ⟨v, s, f⟩ := m
      obtain ⟨v', s', f'⟩ := m'
      have v : v = v' := by
        cases v <;> cases v' <;> simp_all
      simp_all
    rw [modifiersFrom]
    split
    · rename_i k span ls there
      have noModifier := stop k (by
        rw [← List.nil_append rest]
        refine (congrArg List.head? tokens).symm.trans ?_
        rw [Cursor.tokens, there]
        rfl)
      have none_ : applyModifier m k = none := by
        cases k <;> first | rfl | cases noModifier
      simp only [none_]
      exact reads_stay_of same tokens
    · exact reads_stay_of same tokens
  | cons k ks ih =>
    have others := fun k' member => modifiers k' (List.mem_cons_of_mem k member)
    obtain ⟨s, ls, f, p, rfl, behind⟩ := past_of_tokens_cons tokens
    have next : ∀ m'' : Modifiers, applyModifier m k = some (.ok m'') →
        m''.visibility.toList ++ ks.filterMap shownBy? = m'.visibility.toList →
        m'.isStatic = (m''.isStatic || ks.contains .static) →
        m'.isFinal = (m''.isFinal || ks.contains .final) →
        (modifiersFrom m ⟨⟨.keyword k, s⟩ :: ls, f, p⟩).Reads id m' rest := by
      intro m'' applied visibility isStatic isFinal
      rw [modifiersFrom]
      simp only [applied]
      rw [reads_loosen, reads_behindMaybe]
      exact ih others visibility isStatic isFinal behind
    -- a visibility is given only once
    have unseen : ∀ v, shownBy? k = some v → m.visibility = none := by
      intro v shown
      rw [List.filterMap_cons_some shown] at visibility
      have size := congrArg List.length visibility
      have atMostOne : m'.visibility.toList.length ≤ 1 := by
        cases m'.visibility <;> simp
      cases seen : m.visibility with
      | none => rfl
      | some w =>
        rw [seen, List.length_append, List.length_cons, Option.toList_some,
          List.length_singleton] at size
        omega
    have mine := modifiers k List.mem_cons_self
    cases k with
    | public_ | protected_ | private_ =>
      have first := unseen _ rfl
      rw [first, List.filterMap_cons] at visibility
      refine next { m with visibility := some _ } ?_ visibility isStatic isFinal
      simp only [applyModifier, first]
      rfl
    | static =>
      refine next { m with isStatic := true } rfl visibility ?_ isFinal
      simpa using isStatic
    | final =>
      refine next { m with isFinal := true } rfl visibility isStatic ?_
      simpa using isFinal
    | _ => cases mine

theorem modifiers_rendered {m : Modifiers} {ks : List Keyword} (h : m.Rendered ks)
    (tokens : c.tokens = keywordTokens ks ++ rest)
    (stop : ∀ k, rest.head? = some (.keyword k) → isModifier k = false) :
    (c.modifiers).Reads id m rest := by
  refine modifiersFrom_rendered h.modifiers h.visibility ?_ ?_ tokens stop
  · rw [h.isStatic, Bool.false_or]
  · rw [h.isFinal, Bool.false_or]

theorem params_rendered {ps : List Param} (tokens : c.tokens = paramsTokens ps ++ rest) :
    (c.params).Reads (List.map Param.bare) (ps.map Param.bare) rest := by
  have spelled : ∀ i ∈ ps.map fun p => (p.type.tokens, p.type.bare, p.name),
      SpellsType i.1 i.2.1 := by
    intro i member
    obtain ⟨p, _, rfl⟩ := List.mem_map.1 member
    exact p.type.spelled
  have spread : c.tokens = .symbol .leftParen :: (commaTokens (spelledParams
      (ps.map fun p => (p.type.tokens, p.type.bare, p.name))) ++ .symbol .rightParen :: rest) := by
    rw [tokens, paramsTokens, List.cons_append, List.append_assoc, spelledParams, List.map_map]
    rfl
  have read := Synthesis.reads_params spelled spread
  rw [List.map_map] at read
  exact read

theorem typeList_rendered {k : Keyword} {types : List TypeName}
    (tokens : c.tokens = typeListTokens k types ++ rest) (ends : EndsType rest)
    (noComma : rest.head? ≠ some (.symbol .comma)) (noKeyword : rest.head? ≠ some (.keyword k)) :
    (c.typesAfter k).Reads (List.map TypeName.bare) (types.map TypeName.bare) rest := by
  have spelled : ∀ i ∈ types.map fun t => (t.tokens, t.bare), SpellsType i.1 i.2 := by
    intro i member
    obtain ⟨t, _, rfl⟩ := List.mem_map.1 member
    exact t.spelled
  have spread : c.tokens = (if (types.map fun t => (t.tokens, t.bare)).isEmpty then [] else
      .keyword k :: commaTokens ((types.map fun t => (t.tokens, t.bare)).map Prod.fst))
        ++ rest := by
    rw [tokens]
    cases types <;> simp [typeListTokens, Function.comp_def]
  have read := Synthesis.reads_typesAfter spelled spread ends noComma noKeyword
  rw [List.map_map] at read
  exact read

theorem returnType_rendered {type : Option TypeName} (ends : EndsType rest)
    (tokens : c.tokens = returnTokens type ++ rest) :
    (c.returnType).Reads (Option.map TypeName.bare) (type.map TypeName.bare) rest := by
  cases type with
  | none => exact Synthesis.reads_void tokens
  | some t => exact Synthesis.reads_returnType t.spelled ends tokens

/-- A return type starts with no modifier and is no name in front of a parenthesis. -/
theorem returnTokens_head (type : Option TypeName) (name : String) (us : List Token) :
    (∀ k, (returnTokens type ++ .identifier name :: us).head? = some (.keyword k) →
      isModifier k = false) ∧
    (returnTokens type ++ .identifier name :: us)[1]? ≠ some (.symbol .leftParen) := by
  cases type with
  | none =>
    refine ⟨?_, by simp [returnTokens]⟩
    rintro _ ⟨⟩
    rfl
  | some t =>
    obtain ⟨u, more, tokens, starts, noParen⟩ := t.tokens_head
    rw [returnTokens, tokens]
    refine ⟨?_, ?_⟩
    · rintro k ⟨⟩
      obtain h | ⟨kind, h⟩ := starts <;> cases h
    · cases more with
      | nil => simp
      | cons v more => simpa using noParen

/-- A block comes next, whatever member it belongs to. -/
theorem block_head {b : Block} {ts : List Token} (h : b.Rendered ts) :
    ∃ us, ts = .symbol .leftBrace :: us := by
  obtain ⟨us, _, rfl⟩ := h
  exact ⟨_, rfl⟩

theorem member_rendered {className : String} {m : Member} {ts : List Token}
    (h : m.Rendered className ts) (tokens : c.tokens = ts ++ rest) :
    (c.member className).Reads Member.bare m.bare rest := by
  unfold member
  cases h with
  | @field d ks ts modifiers init =>
    simp only [List.append_assoc, List.cons_append, List.nil_append] at tokens
    have head := returnTokens_head (some d.type) d.name (ts ++ .symbol .semicolon :: rest)
    refine (modifiers_rendered modifiers tokens head.1).maybeThen fun m d₀ _ same₀ left₀ => ?_
    have noConstructor : opensConstructor className d₀ = false := by
      unfold opensConstructor
      rw [next?_eq, left₀, Bool.and_eq_false_iff]
      exact .inr (by simpa [returnTokens] using head.2)
    rw [noConstructor, if_neg Bool.false_ne_true]
    refine (Synthesis.reads_returnType d.type.spelled ⟨by simp, by simp⟩ left₀).andThen
      fun type d₁ _ same₁ left₁ => ?_
    refine (reads_expectIdentifier left₁).andThen ?_
    rintro ⟨name', span⟩ d₂ _ rfl left₂
    have semicolon : Ends 0 (.symbol .semicolon :: rest) := ends_cons.2 (by decide)
    have noCall : d₂.atSymbol .leftParen = false := by
      have closed := init.head rest
      rw [atSymbol_eq, left₂]
      simpa using closed
    dsimp only
    rw [noCall, if_neg Bool.false_ne_true]
    obtain ⟨type', rfl, sameType⟩ := Option.map_eq_some_iff.1 same₁
    dsimp only
    refine (initializer_rendered init left₂ semicolon).maybeThen fun init' d₃ _ same₃ left₃ => ?_
    refine (reads_expectSymbol left₃).mapAt fun _ d₄ _ => ?_
    simp only [Member.bare, FieldDecl.bare, sameType, same₃, ← same₀, id_eq]
  | @method d ks ts modifiers body =>
    simp only [List.append_assoc, List.cons_append] at tokens
    have head := returnTokens_head d.returnType d.name
      (paramsTokens d.params ++ (typeListTokens .throws d.throws ++ (ts ++ rest)))
    refine (modifiers_rendered modifiers tokens head.1).maybeThen fun m d₀ _ same₀ left₀ => ?_
    have noConstructor : opensConstructor className d₀ = false := by
      unfold opensConstructor
      rw [next?_eq, left₀, Bool.and_eq_false_iff]
      exact .inr (by simpa using head.2)
    rw [noConstructor, if_neg Bool.false_ne_true]
    refine (returnType_rendered ⟨by simp, by simp⟩ left₀).andThen fun type d₁ _ same₁ left₁ => ?_
    refine (reads_expectIdentifier left₁).andThen ?_
    rintro ⟨name', span⟩ d₂ _ named left₂
    dsimp only at named ⊢
    subst named
    have call : d₂.atSymbol .leftParen = true := by
      rw [atSymbol_eq, left₂]
      simp [paramsTokens]
    rw [if_pos call]
    refine (params_rendered left₂).andThen fun params' d₃ _ same₃ left₃ => ?_
    obtain ⟨us, brace⟩ := block_head body
    have ends : EndsType (ts ++ rest) := by
      rw [brace]
      exact ⟨by simp, by simp⟩
    refine (typeList_rendered left₃ ends (by simp [brace]) (by simp [brace])).maybeThen
      fun throws' d₄ _ same₄ left₄ => ?_
    refine (block_rendered body left₄).map fun block same₅ => ?_
    simp only [Member.bare, MethodDecl.bare, same₁, same₃, same₄, same₅, ← same₀, id_eq]
  | @constructor d ks ts modifiers ownName body =>
    simp only [List.append_assoc, List.cons_append] at tokens
    refine (modifiers_rendered modifiers tokens (by simp)).maybeThen fun m d₀ _ same₀ left₀ => ?_
    have opens : opensConstructor className d₀ = true := by
      unfold opensConstructor
      rw [current?_eq, next?_eq, left₀]
      simp [paramsTokens, ownName]
    rw [if_pos opens]
    refine (reads_expectIdentifier left₀).andThen ?_
    rintro ⟨name', span⟩ d₁ _ named left₁
    dsimp only at named ⊢
    subst named
    refine (params_rendered left₁).andThen fun params' d₂ _ same₂ left₂ => ?_
    refine (block_rendered body left₂).map fun block same₃ => ?_
    simp only [Member.bare, ConstructorDecl.bare, same₂, same₃, ← same₀, id_eq]

theorem members_rendered {className : String} {ms : List Member} {ts : List Token} {c : Cursor}
    (h : Member.AllRendered className ms ts)
    (tokens : c.tokens = ts ++ .symbol .rightBrace :: rest) :
    c.Members className (ms.map Member.bare) (.symbol .rightBrace :: rest) := by
  induction h generalizing c with
  | nil => exact members_close tokens
  | cons first _ ih =>
    rw [List.append_assoc] at tokens
    exact members_cons (member_rendered first tokens) fun d left => ih left

/-! ### Units -/

theorem header_rendered {decl : ClassDecl} {ks : List Keyword} (h : decl.modifiers.Rendered ks)
    (tokens : c.tokens = keywordTokens ks ++ .keyword .class_ :: .identifier decl.name
      :: (typeListTokens .extends_ decl.superclass.toList
        ++ (typeListTokens .implements decl.interfaces ++ .symbol .leftBrace :: rest))) :
    (c.header).Reads headerBare ⟨decl.modifiers, decl.name, decl.superclass.map TypeName.bare,
      decl.interfaces.map TypeName.bare⟩ rest := by
  unfold header
  have stop : ∀ k, (.keyword .class_ :: .identifier decl.name
      :: (typeListTokens .extends_ decl.superclass.toList
        ++ (typeListTokens .implements decl.interfaces ++ .symbol .leftBrace :: rest))
        : List Token).head? = some (.keyword k) → isModifier k = false := by
    rintro _ ⟨⟩
    rfl
  refine (modifiers_rendered h tokens stop).maybeThen fun modifiers d₀ _ same₀ left₀ => ?_
  refine (reads_expectKeyword left₀).andThen fun _ d₁ _ _ left₁ => ?_
  refine (reads_expectIdentifier left₁).andThen ?_
  rintro ⟨name, span⟩ d₂ _ named left₂
  dsimp only at named
  subst named
  have ends : EndsType (typeListTokens .implements decl.interfaces
      ++ .symbol .leftBrace :: rest) := by
    cases decl.interfaces <;> exact ⟨by simp [typeListTokens], by simp [typeListTokens]⟩
  have noExtends : (typeListTokens .implements decl.interfaces
      ++ .symbol .leftBrace :: rest).head? ≠ some (.keyword .extends_) := by
    cases decl.interfaces <;> simp [typeListTokens]
  have spelled : ∀ i ∈ decl.superclass.map fun t => (t.tokens, t.bare), SpellsType i.1 i.2 := by
    intro i member
    obtain ⟨t, _, rfl⟩ := Option.map_eq_some_iff.1 member
    exact t.spelled
  refine (Synthesis.reads_extended spelled ends noExtends (by
    rw [left₂]
    cases decl.superclass <;> simp [typeListTokens, commaTokens])).maybeThen
      fun superclass d₃ _ same₃ left₃ => ?_
  refine (typeList_rendered left₃ ⟨by simp, by simp⟩ (by simp) (by simp)).maybeThen
    fun interfaces d₄ _ same₄ left₄ => ?_
  refine (reads_expectSymbol left₄).map fun _ _ => ?_
  rw [Option.map_map] at same₃
  simp only [headerBare, same₃, same₄, ← same₀, id_eq]
  rfl

end Cursor

/-- No import stands in front of a class. -/
theorem Modifiers.Rendered.noImport {m : Modifiers} {ks : List Keyword} (h : m.Rendered ks)
    (ts : List Token) :
    (keywordTokens ks ++ .keyword .class_ :: ts).head? ≠ some (.keyword .import_) := by
  cases ks with
  | nil => simp [keywordTokens]
  | cons k ks =>
    have first := h.modifiers k List.mem_cons_self
    rintro ⟨⟩
    cases first

/-- A written unit is read back, whatever its layout. -/
theorem CompilationUnit.Rendered.parse {u : CompilationUnit} {l : Lexed}
    (h : u.Rendered (l.tokens.map (·.token))) :
    ∃ u', Source.parse l = .ok u' ∧ u'.bare = u.bare := by
  generalize same : l.tokens.map (·.token) = ts at h
  cases h with
  | @mk ks ts modifiers members =>
    have tokens : (Cursor.ofLexed l).tokens
        = (u.imports.map Import.path).flatMap importTokens
          ++ (keywordTokens ks ++ .keyword .class_ :: .identifier u.decl.name
            :: (typeListTokens .extends_ u.decl.superclass.toList
              ++ (typeListTokens .implements u.decl.interfaces
                ++ .symbol .leftBrace :: (ts ++ [.symbol .rightBrace])))) := by
      rw [List.flatMap_map, ← same]
      rfl
    have decl : ∀ c : Cursor, c.tokens = _ → (c.classDecl).1 = [] ∧
        (c.classDecl).2.Reads ClassDecl.bare _ [] := fun c left =>
      classDecl_written (header_rendered modifiers left) fun d left' =>
        members_rendered members left'
    obtain ⟨u', parsed, shape⟩ := parse_of_reads tokens (modifiers.noImport _) decl
    refine ⟨u', parsed, shape.trans ?_⟩
    rw [CompilationUnit.bare, ClassDecl.bare, List.map_map]
    rfl

/-- The parser recovers every tree: what is as the grammar wants it can be written, and each of its
written forms is read as the same tree up to places. -/
theorem parse_rendered {u : CompilationUnit} (proper : u.isProper = true) :
    (∃ ts, u.Rendered ts) ∧ ∀ l : Lexed, u.Rendered (l.tokens.map (·.token)) →
      ∃ u', Source.parse l = .ok u' ∧ u'.bare = u.bare :=
  ⟨u.rendered proper, fun _ h => h.parse⟩

end Classwright.Source

namespace Classwright.Sample

open Source

/-- Each sign stands where it could be misread: the `if` inside the braces would take the `else`,
the type of the last cast is a name, and `-1` is one literal while `-(1)` is a sign. -/
def stockText : String :=
  "class Stock { int left; Object take(int n) { if (n > 0) { if (n > left) n = left; }
    else return -1; left -= n - (-(1)); return (Object) (-n); } }"

def stockBody : List Stmt :=
  let n : Expr := .name "n" .blank
  let left : Expr := .name "left" .blank
  [.ifElse (.binary .gt n (.literal (.int 0) .blank) .blank)
      (.block [.ifThen (.binary .gt n left .blank) (.expr (.assign none n left .blank)) .blank]
        .blank)
      (.ret (some (.literal (.int (-1)) .blank)) .blank) .blank,
    .expr (.assign (some .sub) left
      (.binary .sub n (.unary .negate (.literal (.int 1) .blank) .blank) .blank) .blank),
    .ret (some (.cast ⟨"Object", 0, .blank⟩ (.unary .negate n .blank) .blank)) .blank]

def stock : CompilationUnit where
  imports := []
  decl :=
    { modifiers := {}, name := "Stock", superclass := none, interfaces := [], span := .blank
      members := [
        .field ⟨{}, ⟨"int", 0, .blank⟩, "left", none, .blank⟩,
        .method ⟨{}, some ⟨"Object", 0, .blank⟩, "take", [⟨⟨"int", 0, .blank⟩, "n", .blank⟩], [],
          ⟨stockBody, .blank⟩, .blank⟩] }

def stockTokens : List Token :=
  [.keyword .class_, .identifier "Stock", .symbol .leftBrace,
    .primitive .int, .identifier "left", .symbol .semicolon,
    .identifier "Object", .identifier "take",
    .symbol .leftParen, .primitive .int, .identifier "n", .symbol .rightParen, .symbol .leftBrace,
    .keyword .if_, .symbol .leftParen, .identifier "n", .symbol .greater, .int 0,
    .symbol .rightParen, .symbol .leftBrace,
    .keyword .if_, .symbol .leftParen, .identifier "n", .symbol .greater, .identifier "left",
    .symbol .rightParen, .identifier "n", .symbol .equal, .identifier "left", .symbol .semicolon,
    .symbol .rightBrace, .keyword .else_,
    .keyword .return_, .symbol .minus, .int 1, .symbol .semicolon,
    .identifier "left", .symbol .minusEqual, .identifier "n", .symbol .minus, .symbol .leftParen,
    .symbol .minus, .symbol .leftParen, .int 1, .symbol .rightParen, .symbol .rightParen,
    .symbol .semicolon,
    .keyword .return_, .symbol .leftParen, .identifier "Object", .symbol .rightParen,
    .symbol .leftParen, .symbol .minus, .identifier "n", .symbol .rightParen, .symbol .semicolon,
    .symbol .rightBrace, .symbol .rightBrace]

theorem stock_rendered : stock.Rendered stockTokens := by
  have named : ∀ (p : Nat) (name : String), p ≤ 9 →
      (Expr.name name .blank).Rendered p [.identifier name] :=
    fun p name bound => Expr.Rendered.name.lower (Nat.le_refl 9) bound
  have greater : ∀ {e : Expr} {t : Token}, e.Rendered 6 [t] →
      (Expr.binary .gt (.name "n" .blank) e .blank).Rendered 0
        [.identifier "n", .symbol .greater, t] := fun h =>
    (Expr.Rendered.join (o := .binary .gt) (p := 5) rfl (named 5 "n" (by decide)) h).lower
      (by decide) (by decide)
  have zero : (Expr.literal (.int 0) .blank).Rendered 6 [.int 0] :=
    (Expr.Rendered.literal (v := .int 0) rfl).lower (by decide) (by decide)
  have capped : (Stmt.ifThen (.binary .gt (.name "n" .blank) (.name "left" .blank) .blank)
      (.expr (.assign none (.name "n" .blank) (.name "left" .blank) .blank)) .blank).Rendered _ :=
    .ifThen (greater (named 6 "left" (by decide))) (.expr (.assign rfl rfl
      (named 1 "n" (by decide)) (named 0 "left" (by decide))))
  have minusOne : (Expr.literal (.int (-1)) .blank).Rendered 0 [.symbol .minus, .int 1] :=
    (Expr.Rendered.negative (v := .int (-1)) rfl).lower (by decide) (by decide)
  have one : (Expr.literal (.int 1) .blank).Rendered 9
      [.symbol .leftParen, .int 1, .symbol .rightParen] :=
    .parens ((Expr.Rendered.literal (v := .int 1) rfl).lower (by decide) (by decide))
  have negated : (Expr.unary .negate (.literal (.int 1) .blank) .blank).Rendered 8
      [.symbol .minus, .symbol .leftParen, .int 1, .symbol .rightParen] :=
    .sign (one.lower (by decide) (by decide)) (by simp)
  have taken : (Expr.binary .sub (.name "n" .blank)
      (.unary .negate (.literal (.int 1) .blank) .blank) .blank).Rendered 6 _ :=
    .join (o := .binary .sub) rfl (named 6 "n" (by decide))
      ((Expr.Rendered.parens (negated.lower (by decide) (by decide))).lower (by decide) (by decide))
  have taking : (Expr.assign (some .sub) (.name "left" .blank) (.binary .sub (.name "n" .blank)
      (.unary .negate (.literal (.int 1) .blank) .blank) .blank) .blank).Rendered 0 _ :=
    .assign rfl rfl (named 1 "left" (by decide)) (taken.lower (by decide) (by decide))
  have given : (Expr.unary .negate (.name "n" .blank) .blank).Rendered 8
      [.symbol .minus, .identifier "n"] := .sign (named 8 "n" (by decide)) (by simp)
  have cast : (Expr.cast ⟨"Object", 0, .blank⟩ (.unary .negate (.name "n" .blank) .blank)
      .blank).Rendered 8 _ :=
    .cast ((Expr.Rendered.parens (given.lower (by decide) (by decide))).lower (by decide)
      (by decide)) (by decide)
  have body : Stmt.AllRendered stockBody _ :=
    .cons (.ifElse (greater zero) rfl (.block (.cons capped .nil)) (.retValue minusOne))
      (.cons (.expr taking)
        (.cons (.retValue (cast.lower (by decide) (by decide))) .nil))
  have plain : Modifiers.Rendered {} [] := ⟨by simp, rfl, rfl, rfl⟩
  have members : Member.AllRendered "Stock" stock.decl.members _ :=
    .cons (.field plain .none) (.cons (.method plain ⟨_, body, rfl⟩) .nil)
  exact .mk (u := stock) plain members

theorem stock_reread : stock.Rendered stockTokens ∧ ∃ l u, scan stockText = .ok l ∧
    l.tokens.map (·.token) = stockTokens ∧ parse l = .ok u ∧ u.bare = stock.bare := by
  have scans : (scan stockText).toOption.map (·.tokens.map (·.token)) = some stockTokens := by
    decide +kernel
  cases scanned : scan stockText with
  | error e =>
    rw [scanned] at scans
    cases scans
  | ok l =>
    rw [scanned] at scans
    have tokens : l.tokens.map (·.token) = stockTokens := Option.some.inj scans
    have proper : stock.isProper = true := by decide
    obtain ⟨u, parsed, same⟩ := (parse_rendered proper).2 l (tokens ▸ stock_rendered)
    exact ⟨stock_rendered, l, u, rfl, tokens, parsed, same⟩

end Classwright.Sample

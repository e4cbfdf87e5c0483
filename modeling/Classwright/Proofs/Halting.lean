import Classwright.Proofs.Declarations
import Classwright.Proofs.Following

/-!
# Reading comes to an end

Whatever the tokens of a source are, the walk along them ends with what the cursors read, and no
round of any loop leaves the walker where it was. The walker goes back to the start of a malformed
member; but a member does not begin with a closing brace, so that passing it takes the walker over
one token at least. Reading a malformed import stops behind its keyword, and it is passed from
there.
-/

namespace Classwright.Source

open Track

variable {l : Lexed} {es : List SyntaxError} {c : Cursor} {w : Walker}

/-! ### Statements -/

theorem condition_follows (h : w.At l es c) :
    Follows l es id (Track.condition l w) c.condition := by
  refine (expect_follows h (.symbol .leftParen)).andThen fun _ d _ w₁ h₁ => ?_
  refine (expression_follows h₁).andThen fun test e _ w₂ h₂ => ?_
  exact (expect_follows h₂ (.symbol .rightParen)).map fun _ _ => rfl

theorem initializer_follows (h : w.At l es c) :
    Follows l es id (Track.initializer l w) c.initializer := by
  refine (eat_follows h (.symbol .equal)).andMaybe fun found d _ w₁ h₁ => ?_
  cases found with
  | false => exact .stay rfl h₁
  | true => exact Follows.loosen_iff.2 ((expression_follows h₁).map fun _ _ => rfl)

theorem declaration_follows (h : w.At l es c) :
    Follows l es id (Track.declaration l w) c.declaration := by
  rw [Track.declaration, span_bind, h.cursor]
  refine (typeName_follows h).andThen fun type d _ w₁ h₁ => ?_
  refine (identifier_follows h₁).andThen ?_
  rintro ⟨name, nameSpan⟩ e - w₂ h₂
  refine (initializer_follows h₂).maybeThen fun init f _ w₃ h₃ => ?_
  exact (semicolon_follows h₃).mapAt fun _ _ => rfl

theorem terminated_follows (h : w.At l es c) (start : Span) (build : Expr → Span → Stmt) :
    Follows l es id (Track.terminated l start build w) (c.terminated start build) := by
  refine (expression_follows h).andThen fun value d _ w₁ h₁ => ?_
  exact (semicolon_follows h₁).mapAt fun _ _ => rfl

mutual

theorem statement_follows {c : Cursor} {w : Walker} (h : w.At l es c) :
    Follows l es id (Track.statement l w) (Cursor.statement c) := by
  rw [Track.statement, Cursor.statement, span_bind, h.cursor]
  have plain := terminated_follows h c.span fun e _ => .expr e
  obtain ⟨p, rfl⟩ | ⟨t, s, us, p, whole, h₁⟩ := h.cases
  · rw [current_nil h]
    dsimp only
    rw [bind_ok (opensDeclaration_ends h)]
    exact plain
  · have size : us.length + 1 = c.remaining := (congrArg Cursor.remaining whole).symm
    rw [whole] at h plain ⊢
    rw [current_cons h]
    -- No keyword or sign says what the statement is, so it is a declaration or an expression.
    have other : Follows l es id ((Track.opensDeclaration l >>= fun opens =>
          if opens then Track.declaration l
          else Track.terminated l s fun e _ => .expr e) w)
        (if Cursor.opensDeclaration ⟨⟨t, s⟩ :: us, l.finish, p⟩
          then Cursor.declaration ⟨⟨t, s⟩ :: us, l.finish, p⟩
          else Cursor.terminated s (fun e _ => .expr e) ⟨⟨t, s⟩ :: us, l.finish, p⟩) := by
      rw [bind_ok (opensDeclaration_ends h)]
      split
      · exact declaration_follows h
      · exact plain
    dsimp only
    cases t with
    | symbol sign =>
      cases sign with
      | leftBrace =>
        dsimp only
        rw [advance_bind h, Follows.behind_iff]
        exact (statementLoop_follows h₁ []).mapAt fun _ _ => rfl
      | semicolon => exact .ok (advance_bind h _) h₁
      | _ => exact other
    | keyword word =>
      cases word with
      | return_ =>
        dsimp only
        rw [advance_bind h, check_symbol_bind, h₁.cursor, Follows.behind_iff]
        split
        · exact (semicolon_follows h₁).mapAt fun _ _ => rfl
        · exact terminated_follows h₁ ..
      | throw =>
        dsimp only
        rw [advance_bind h, Follows.behind_iff]
        exact terminated_follows h₁ ..
      | if_ =>
        dsimp only
        rw [advance_bind h, Follows.behind_iff]
        refine (condition_follows h₁).andThen fun test d shorter₁ w₂ h₂ => ?_
        refine (statement_follows h₂).andMaybe fun thenBranch e shorter₂ w₃ h₃ => ?_
        refine (eat_follows h₃ (.keyword .else_)).andMaybe fun found f shorter₃ w₄ h₄ => ?_
        cases found with
        | false => exact .stay (by rw [← h₄.cursor]; rfl) h₄
        | true => exact Follows.loosen_iff.2 ((statement_follows h₄).mapAt fun _ _ => rfl)
      | while_ =>
        dsimp only
        rw [advance_bind h, Follows.behind_iff]
        refine (condition_follows h₁).andThen fun test d shorter₁ w₂ h₂ => ?_
        exact (statement_follows h₂).mapAt fun _ _ => rfl
      | final =>
        dsimp only
        rw [advance_bind h, Follows.behind_iff]
        exact declaration_follows h₁
      | _ => exact other
    | _ => exact other
termination_by 2 * c.remaining
decreasing_by
  all_goals simp only [Cursor.past, Cursor.remaining] at *; omega

theorem statementLoop_follows {c : Cursor} {w : Walker} (h : w.At l es c) (body : List Stmt) :
    Follows l es (body ++ ·) (Track.statementLoop l body w) (Cursor.blockTail c) := by
  rw [Track.statementLoop, Cursor.blockTail, position_bind, check_bind, current_bind, h.cursor]
  obtain ⟨p, rfl⟩ | ⟨t, s, us, p, whole, h₁⟩ := h.cases
  · rw [if_pos (by rfl)]
    exact .error h (bind_error (expect_wrong h rfl))
  · have size : us.length + 1 = c.remaining := (congrArg Cursor.remaining whole).symm
    rw [whole] at h ⊢
    dsimp only
    by_cases close : t = .symbol .rightBrace
    · subst close
      rw [if_pos (by rfl), if_pos rfl, bind_ok (expect_ok h)]
      exact .ok (by rw [List.append_nil]; rfl) h₁
    · rw [at_other close, if_neg (fun ends => by cases ends), if_neg close]
      refine (statement_follows h).andThen fun s d shorter w₁ h₁ => ?_
      rw [lap_bind, Follows.map_iff]
      have more := statementLoop_follows (h₁.lapped .statements (h.lt h₁ shorter)) (body ++ [s])
      simp only [List.append_assoc, List.singleton_append] at more
      exact more
termination_by 2 * c.remaining + 1
decreasing_by
  all_goals simp only [Cursor.past, Cursor.remaining, List.length_cons] at *; omega

end

theorem block_follows (h : w.At l es c) : Follows l es id (Track.block l w) c.block := by
  rw [Track.block, span_bind, h.cursor]
  refine (expect_follows h (.symbol .leftBrace)).andThen fun _ d _ w₁ h₁ => ?_
  exact (statementLoop_follows h₁ []).mapAt fun _ _ => rfl

/-! ### Declarations -/

theorem passLoop_ends {last : Span} {ts : List Lexeme} (h : w.At l es ⟨ts, l.finish, last⟩)
    (depth : Nat) :
    ∃ w', passLoop l depth w = some (.ok (), w') ∧
      w'.At l es ⟨(skipDeclaration last depth ts).2, l.finish,
        (skipDeclaration last depth ts).1⟩ := by
  fun_induction skipDeclaration last depth ts generalizing w with
  | case1 last depth =>
    refine ⟨w, ?_, h⟩
    rw [passLoop, position_bind, current_nil h]
    rfl
  | case2 last depth t us opening ih =>
    obtain ⟨t, s⟩ := t
    obtain rfl : t = .symbol .leftBrace := opening
    rw [passLoop, position_bind, current_cons h]
    dsimp only
    rw [advance_bind h, lap_bind]
    exact ih ((h.next rfl).lapped .passing (Nat.lt_succ_self _))
  | case3 last t us closing =>
    obtain ⟨t, s⟩ := t
    obtain rfl : t = .symbol .rightBrace := closing
    refine ⟨w, ?_, h⟩
    rw [passLoop, position_bind, current_cons h]
    rfl
  | case4 last t us closing =>
    obtain ⟨t, s⟩ := t
    obtain rfl : t = .symbol .rightBrace := closing
    refine ⟨w.next, ?_, h.next rfl⟩
    rw [passLoop, position_bind, current_cons h]
    exact advance_apply h
  | case5 last t us depth closing ih =>
    obtain ⟨t, s⟩ := t
    obtain rfl : t = .symbol .rightBrace := closing
    rw [passLoop, position_bind, current_cons h]
    dsimp only
    rw [advance_bind h, lap_bind]
    exact ih ((h.next rfl).lapped .passing (Nat.lt_succ_self _))
  | case6 last t us semicolon =>
    obtain ⟨t, s⟩ := t
    obtain rfl : t = .symbol .semicolon := semicolon
    refine ⟨w.next, ?_, h.next rfl⟩
    rw [passLoop, position_bind, current_cons h]
    exact advance_apply h
  | case7 last depth t us opening closing closing₁ closing₂ semicolon ih =>
    obtain ⟨t, s⟩ := t
    rw [passLoop, position_bind, current_cons h]
    dsimp only
    split
    · exact (opening rfl).elim
    · exact (closing rfl rfl).elim
    · exact (closing₁ rfl rfl).elim
    · exact (closing₂ _ rfl rfl).elim
    · exact (semicolon rfl rfl).elim
    · rw [advance_bind h, lap_bind]
      exact ih ((h.next rfl).lapped .passing (Nat.lt_succ_self _))

/-- The loop passes a malformed declaration as the cursor does. -/
theorem passLoop_passes (h : w.At l es c) :
    ∃ w', passLoop l 0 w = some (.ok (), w') ∧ w'.At l es c.passDeclaration := by
  obtain ⟨rest, finish, last⟩ := c
  obtain rfl : l.finish = finish := congrArg Cursor.finish h.cursor
  exact passLoop_ends h 0

theorem modifierLoop_follows {c : Cursor} {w : Walker} (h : w.At l es c) (m : Modifiers) :
    Follows l es id (Track.modifierLoop l m w) (Cursor.modifiersFrom m c) := by
  rw [Track.modifierLoop, Cursor.modifiersFrom, position_bind, span_bind, h.cursor]
  obtain ⟨p, rfl⟩ | ⟨t, s, us, p, whole, h₁⟩ := h.cases
  · rw [current_nil h]
    exact .stay rfl h
  · have size : us.length + 1 = c.remaining := (congrArg Cursor.remaining whole).symm
    rw [whole] at h ⊢
    rw [current_cons h]
    cases t with
    | keyword k =>
      dsimp only
      cases given : Cursor.applyModifier m k with
      | none => exact .stay rfl h
      | some result =>
        cases result with
        | error cause => exact .error h₁ (bind_ok (advance_apply h))
        | ok m' =>
          dsimp only
          rw [advance_bind h, lap_bind, Follows.loosen_iff, Follows.behindMaybe_iff]
          exact modifierLoop_follows (h₁.lapped .modifiers (Nat.lt_succ_self _)) m'
    | _ => exact .stay rfl h
termination_by c.remaining
decreasing_by
  all_goals simp only [Cursor.past, Cursor.remaining] at *; omega

theorem typeLoop_follows {c : Cursor} {w : Walker} (h : w.At l es c) (types : List TypeName) :
    Follows l es (types ++ ·) (Track.typeLoop l types w) (Cursor.typeList c) := by
  rw [Track.typeLoop, Cursor.typeList, position_bind]
  refine (typeName_follows h).andMaybe fun type d shorter w₁ h₁ => ?_
  obtain ⟨p, rfl⟩ | ⟨t, s, us, p, rfl, h₂⟩ := h₁.cases
  · rw [bind_ok (eat_no h₁ rfl)]
    exact .stay rfl h₁
  · have size : us.length + 1 < c.remaining := shorter
    dsimp only
    by_cases comma : t = .symbol .comma
    · subst comma
      rw [bind_ok (eat_yes h₁), if_pos rfl, if_pos rfl, lap_bind, Follows.loosen_iff,
        Follows.behind_iff, Follows.map_iff]
      have more := typeLoop_follows (h₂.lapped .types (h.lt h₂ (Nat.lt_of_succ_lt size)))
        (types ++ [type])
      simp only [List.append_assoc, List.singleton_append] at more
      exact more
    · rw [bind_ok (eat_no h₁ (at_other comma)), if_neg comma]
      exact .stay rfl h₁
termination_by c.remaining
decreasing_by
  all_goals simp only [Cursor.past, Cursor.remaining] at *; omega

theorem typesAfter_follows (h : w.At l es c) (k : Keyword) :
    Follows l es id (Track.typesAfter l k w) (c.typesAfter k) := by
  refine (eat_follows h (.keyword k)).andMaybe fun found d _ w₁ h₁ => ?_
  cases found with
  | false => exact .stay rfl h₁
  | true => exact Follows.loosen_iff.2 (typeLoop_follows h₁ [])

theorem paramLoop_follows {c : Cursor} {w : Walker} (h : w.At l es c) (params : List Param) :
    Follows l es (params ++ ·) (Track.paramLoop l params w) (Cursor.paramTail c) := by
  rw [Track.paramLoop, Cursor.paramTail, position_bind]
  refine (typeName_follows h).andThen fun type d shorter w₁ h₁ => ?_
  refine (identifier_follows h₁).andThen ?_
  rintro ⟨name, nameSpan⟩ e shorter₁ w₂ h₂
  dsimp only
  have close := (expect_follows h₂ (.symbol .rightParen)).map
    (k := fun _ => pure (params ++ [⟨type, name, type.span.through nameSpan⟩]))
    (v := (params ++ ·)) (g := fun _ => [⟨type, name, type.span.through nameSpan⟩]) fun _ _ => rfl
  obtain ⟨p, rfl⟩ | ⟨t, s, us, p, rfl, h₃⟩ := h₂.cases
  · rw [bind_ok (eat_no h₂ rfl)]
    exact .error h₂ (bind_error (expect_wrong h₂ rfl))
  · have size : us.length + 1 < d.remaining := shorter₁
    dsimp only
    by_cases comma : t = .symbol .comma
    · subst comma
      rw [bind_ok (eat_yes h₂), if_pos rfl, if_pos rfl, lap_bind, Follows.behind_iff,
        Follows.map_iff]
      have forward := h.lt h₃ (Nat.lt_trans (Nat.lt_of_succ_lt size) shorter)
      have more := paramLoop_follows (h₃.lapped .params forward)
        (params ++ [⟨type, name, type.span.through nameSpan⟩])
      simp only [List.append_assoc, List.singleton_append] at more
      exact more
    · rw [bind_ok (eat_no h₂ (at_other comma)), if_neg comma]
      exact close
termination_by c.remaining
decreasing_by
  all_goals simp only [Cursor.past, Cursor.remaining] at *; omega

theorem params_follows (h : w.At l es c) : Follows l es id (Track.params l w) c.params := by
  refine (expect_follows h (.symbol .leftParen)).andThen fun _ d _ w₁ h₁ => ?_
  by_cases close : d.atSymbol .rightParen = true
  · rw [if_pos close]
    obtain ⟨p, rfl⟩ | ⟨t, s, us, p, rfl, h₂⟩ := h₁.cases
    · cases close
    · obtain rfl : t = .symbol .rightParen := at_iff.1 close
      rw [bind_ok (eat_yes h₁), Cursor.expectSymbol]
      simp only [Cursor.expect, if_true]
      exact .ok rfl h₂
  · rw [bind_ok (eat_no h₁ (Bool.eq_false_iff.2 close)), if_neg close]
    exact paramLoop_follows h₁ []

theorem returnType_follows (h : w.At l es c) :
    Follows l es id (Track.returnType l w) c.returnType := by
  have named := (typeName_follows h).map (k := fun type => pure (some type)) (v := id)
    (g := some) fun _ _ => rfl
  rw [Track.returnType]
  obtain ⟨p, rfl⟩ | ⟨t, s, us, p, rfl, h₁⟩ := h.cases
  · rw [bind_ok (eat_no h rfl)]
    exact named
  · cases t with
    | keyword word =>
      cases word with
      | void =>
        rw [bind_ok (eat_yes h)]
        exact .ok rfl h₁
      | _ =>
        rw [bind_ok (eat_no h rfl)]
        exact named
    | _ =>
      rw [bind_ok (eat_no h rfl)]
      exact named

/-- What the walker looks at to tell a constructor. -/
theorem opensConstructor_eq (className : String) (c : Cursor) :
    (c.at_ (.identifier className)
      && (c.rest.drop 1).head?.map (·.token) == some (.symbol .leftParen))
      = c.opensConstructor className := by
  rw [List.head?_drop]
  rfl

theorem member_follows (h : w.At l es c) (className : String) :
    Follows l es id (Track.member l className w) (c.member className) := by
  rw [Track.member, span_bind, h.cursor]
  refine (modifierLoop_follows h {}).maybeThen fun modifiers d _ w₁ h₁ => ?_
  rw [check_bind, ahead_bind, h₁.cursor, opensConstructor_eq]
  split
  · refine (identifier_follows h₁).andThen ?_
    rintro ⟨name, nameSpan⟩ e - w₂ h₂
    refine (params_follows h₂).andThen fun params f _ w₃ h₃ => ?_
    exact (block_follows h₃).map fun _ _ => rfl
  · refine (returnType_follows h₁).andThen fun type e _ w₂ h₂ => ?_
    refine (identifier_follows h₂).andThen ?_
    rintro ⟨name, nameSpan⟩ f - w₃ h₃
    dsimp only
    rw [check_symbol_bind, h₃.cursor]
    split
    · refine (params_follows h₃).andThen fun params g _ w₄ h₄ => ?_
      refine (typesAfter_follows h₄ .throws).maybeThen fun throws i _ w₅ h₅ => ?_
      exact (block_follows h₅).map fun _ _ => rfl
    · cases type with
      | none => exact .error h₃ rfl
      | some type =>
        refine (initializer_follows h₃).maybeThen fun init g _ w₄ h₄ => ?_
        exact (expect_follows h₄ (.symbol .semicolon)).mapAt fun _ _ => rfl

/-- The loop goes back to the start of a malformed member before it passes it. -/
theorem memberLoop_ends (h : w.At l es c) (className : String) (members : List Member) :
    ∃ w', memberLoop l className members w
        = some (.ok (members ++ (c.members className).1), w') ∧
      w'.At l (es ++ (c.members className).2.1) (c.members className).2.2 := by
  fun_induction Cursor.members className c generalizing w es members with
  | case1 c nothing =>
    refine ⟨w, ?_, by rwa [List.append_nil]⟩
    have ends : c.current? = none := by rw [Cursor.current?, nothing]; rfl
    rw [memberLoop, position_bind, check_bind, current_bind, h.cursor, ends, List.append_nil,
      if_pos (by simp)]
    rfl
  | case2 c first us token closing =>
    refine ⟨w, ?_, by rwa [List.append_nil]⟩
    have found : c.at_ (.symbol .rightBrace) = true := by
      rw [Cursor.at_, Cursor.current?, token, ← closing]
      exact beq_self_eq_true _
    rw [memberLoop, position_bind, check_bind, current_bind, h.cursor, found, List.append_nil,
      if_pos (by rfl)]
    rfl
  | case3 c first us token going m d shorter read ms later last tail ih =>
    have found : c.current? = some first.token := by rw [Cursor.current?, token]; rfl
    obtain ⟨w₁, ends, stop⟩ := (member_follows h className).of_ok read
    obtain ⟨w', ends', stop'⟩ := ih (stop.lapped .members (h.lt stop shorter)) (members ++ [m])
    rw [tail] at ends' stop'
    refine ⟨w', ?_, stop'⟩
    rw [memberLoop, position_bind, check_bind, current_bind, h.cursor, Cursor.at_, found,
      if_neg (by simpa using going), attempt_bind ends]
    dsimp only
    rw [lap_bind, ends', List.append_assoc]
    rfl
  | case4 c first us token going e stop read shorter ms later last tail ih =>
    have found : c.current? = some first.token := by rw [Cursor.current?, token]; rfl
    obtain ⟨w₁, ends, failed⟩ := (member_follows h className).of_error read
    -- How far the failed reading came does not count: the lap began where the walker is now back.
    obtain ⟨w₂, ends₂, passed⟩ := passLoop_passes (h.back (failed.recorded e))
    obtain ⟨w', ends', stop'⟩ := ih (passed.lapped .members (h.lt passed shorter)) members
    rw [tail] at ends' stop'
    refine ⟨w', ?_, by rwa [List.append_assoc] at stop'⟩
    rw [memberLoop, position_bind, check_bind, current_bind, h.cursor, Cursor.at_, found,
      if_neg (by simpa using going), attempt_bind ends]
    dsimp only
    rw [record_bind, moveTo_bind, bind_ok ends₂, lap_bind, ends']

theorem extended_follows (h : w.At l es c) :
    Follows l es id (Track.extended l w) c.extended := by
  refine (eat_follows h (.keyword .extends_)).andMaybe fun found d _ w₁ h₁ => ?_
  cases found with
  | false => exact .stay rfl h₁
  | true => exact Follows.loosen_iff.2 ((typeName_follows h₁).map fun _ _ => rfl)

theorem header_follows (h : w.At l es c) : Follows l es id (Track.header l w) c.header := by
  rw [Track.header]
  refine (modifierLoop_follows h {}).maybeThen fun modifiers d _ w₁ h₁ => ?_
  refine (expect_follows h₁ (.keyword .class_)).andThen fun _ e _ w₂ h₂ => ?_
  refine (identifier_follows h₂).andThen ?_
  rintro ⟨name, nameSpan⟩ f - w₃ h₃
  refine (extended_follows h₃).maybeThen fun superclass g _ w₄ h₄ => ?_
  refine (typesAfter_follows h₄ .implements).maybeThen fun interfaces i _ w₅ h₅ => ?_
  exact (expect_follows h₅ (.symbol .leftBrace)).map fun _ _ => rfl

theorem classDecl_follows (h : w.At l es c) :
    Follows l (es ++ c.classDecl.1) id (Track.classDecl l w) c.classDecl.2 := by
  rw [Track.classDecl, span_bind, h.cursor, Cursor.classDecl]
  cases read : c.header with
  | error e d =>
    obtain ⟨w₁, ends, stop⟩ := (header_follows h).of_error read
    exact .error (by rwa [List.append_nil]) (bind_error ends)
  | ok head d shorter =>
    obtain ⟨w₁, ends, stop⟩ := (header_follows h).of_ok read
    obtain ⟨w₂, ends₂, stop₂⟩ := memberLoop_ends stop head.name []
    dsimp only
    rw [bind_ok ends, bind_ok ends₂, Follows.upTo_iff]
    exact (expect_follows stop₂ (.symbol .rightBrace)).mapAt fun _ _ => rfl

theorem expect_stop {t : Token} {e : SyntaxError} {d : Cursor} (failed : c.expect t = .error e d) :
    d = c := by
  unfold Cursor.expect at failed
  split at failed
  · cases failed; rfl
  · split at failed
    · cases failed
    · cases failed; rfl

theorem qualifiedName_stop {e : SyntaxError} {d : Cursor} (failed : c.qualifiedName = .error e d) :
    d = c := by
  unfold Cursor.qualifiedName Cursor.expectIdentifier at failed
  split at failed
  · cases failed
  · cases failed; rfl

theorem importDecl_ends {s : Span} {us : List Lexeme} (h : w.At l es c)
    (whole : c.rest = ⟨.keyword .import_, s⟩ :: us) :
    ∃ w', Track.importDecl l w
        = some ((Cursor.importPath s (c.past ⟨.keyword .import_, s⟩ us)).1, w') ∧
      w'.At l es (Cursor.importPath s (c.past ⟨.keyword .import_, s⟩ us)).2 := by
  have reads := qualifiedName_follows (h.next whole)
  obtain ⟨rest, finish, p⟩ := c
  obtain rfl : rest = ⟨.keyword .import_, s⟩ :: us := whole
  rw [Track.importDecl, span_bind, bind_ok (expect_ok h), h.cursor, Cursor.importPath]
  cases read : (Cursor.past ⟨⟨.keyword .import_, s⟩ :: us, finish, p⟩
    ⟨.keyword .import_, s⟩ us).qualifiedName with
  | error e d =>
    obtain ⟨w₂, ends, stop⟩ := reads.of_error read
    obtain rfl := qualifiedName_stop read
    exact ⟨w₂, bind_error ends, stop⟩
  | ok name d shorter =>
    obtain ⟨w₂, ends, stop⟩ := reads.of_ok read
    have closes := expect_follows stop (.symbol .semicolon)
    rw [bind_ok ends]
    dsimp only
    cases close : d.expectSymbol .semicolon with
    | error e d' =>
      obtain ⟨w₃, ends₃, stop₃⟩ := closes.of_error close
      obtain rfl := expect_stop close
      exact ⟨w₃, bind_error ends₃, stop₃⟩
    | ok _ d' shorter' =>
      obtain ⟨w₃, ends₃, stop₃⟩ := closes.of_ok close
      refine ⟨w₃, ?_, stop₃⟩
      rw [bind_ok ends₃, previous_bind, stop₃.cursor]
      rfl

theorem importLoop_ends {c : Cursor} {es : List SyntaxError} {w : Walker} (h : w.At l es c)
    (imports : List Import) :
    ∃ w', importLoop l imports w = some (.ok (imports ++ c.imports.1), w') ∧
      w'.At l (es ++ c.imports.2.1) c.imports.2.2 := by
  rw [importLoop, position_bind, check_bind, h.cursor]
  by_cases importing : c.at_ (.keyword .import_) = true
  · rw [if_pos importing]
    obtain ⟨p, rfl⟩ | ⟨t, s, us, p, rfl, h₁⟩ := h.cases
    · cases importing
    · obtain rfl : t = .keyword .import_ := at_iff.1 importing
      obtain ⟨w₁, ends, stop⟩ := importDecl_ends h rfl
      have shorter := Cursor.importPath_remaining s
        (Cursor.past ⟨⟨.keyword .import_, s⟩ :: us, l.finish, p⟩ ⟨.keyword .import_, s⟩ us)
      rw [attempt_bind ends, Cursor.imports_of_import rfl]
      cases found : Cursor.importPath s
        (Cursor.past ⟨⟨.keyword .import_, s⟩ :: us, l.finish, p⟩ ⟨.keyword .import_, s⟩ us) with
      | mk result d =>
        rw [found] at stop shorter
        cases result with
        | ok i =>
          dsimp only
          have closer : d.remaining < us.length + 1 := Nat.lt_succ_of_le shorter
          obtain ⟨w', ends', stop'⟩ := importLoop_ends (stop.lapped .imports (h.lt stop closer))
            (imports ++ [i])
          refine ⟨w', ?_, stop'⟩
          rw [lap_bind, ends', List.append_assoc, List.singleton_append]
        | error e =>
          dsimp only
          have closer : d.passDeclaration.remaining < us.length + 1 :=
            Nat.lt_succ_of_le (Nat.le_trans d.passDeclaration_remaining shorter)
          obtain ⟨w₂, ends₂, passed⟩ := passLoop_passes (stop.recorded e)
          obtain ⟨w', ends', stop'⟩ := importLoop_ends
            (passed.lapped .imports (h.lt passed closer)) imports
          refine ⟨w', ?_, by rwa [List.append_assoc] at stop'⟩
          rw [record_bind, bind_ok ends₂, lap_bind, ends']
  · rw [if_neg importing, Cursor.imports_of_other, List.append_nil, List.append_nil]
    · exact ⟨w, rfl, h⟩
    · intro s us same
      apply importing
      rw [Cursor.at_, Cursor.current?, same]
      rfl
termination_by c.remaining

/-- At first the walker stands in front of all tokens. -/
theorem ofLexed_at (l : Lexed) : Walker.At l [] (Cursor.ofLexed l) {} := by
  refine ⟨⟨Nat.zero_le _, Nat.zero_le _, fun _ member => absurd member List.not_mem_nil⟩, rfl, ?_⟩
  rw [Cursor.ofLexed, List.head?_eq_getElem?]
  rfl

/-- Whatever the tokens of a source are, the walk along them comes to an end, and with what is read
from the source. No lap of any loop ended where it began or before, and the walker was never behind
the place where the tokens end. -/
theorem reading_halts (l : Lexed) :
    ∃ w, Track.unit l {} = some (.ok (parse l), w) ∧
      (∀ lap ∈ w.laps, lap.start < lap.finish ∧ lap.finish ≤ l.tokens.length) ∧
      w.furthest ≤ l.tokens.length := by
  obtain ⟨w, ends, stop⟩ := importLoop_ends (ofLexed_at l) []
  rw [Track.unit, bind_ok ends, parse]
  generalize (Cursor.ofLexed l).imports = head at stop ⊢
  obtain ⟨imports, importErrors, c⟩ := head
  have reads := classDecl_follows stop
  dsimp only at reads ⊢
  generalize c.classDecl = body at reads ⊢
  obtain ⟨memberErrors, ⟨decl, d, shorter⟩ | ⟨e, d⟩⟩ := body
  · obtain ⟨w', ends', stop'⟩ := reads
    have errors : w'.errors = importErrors ++ memberErrors := stop'.errors
    rw [attempt_bind ends']
    dsimp only [id]
    rw [current_bind, stop'.cursor, Cursor.current?]
    cases left : d.rest with
    | nil =>
      refine ⟨w', ?_, stop'.laps, stop'.furthest⟩
      rw [if_neg (fun more => by cases more), if_pos (by rfl), List.append_nil, ← errors,
        get_bind]
      cases w'.errors <;> rfl
    | cons t us =>
      refine ⟨{ w' with errors := w'.errors ++ [⟨.secondClass, d.span, none⟩] }, ?_, stop'.laps,
        stop'.furthest⟩
      rw [if_pos (by rfl), if_neg (fun ended => by cases ended), span_bind, stop'.cursor,
        record_bind, ← errors, get_bind]
      cases w'.errors <;> rfl
  · obtain ⟨w', ends', stop'⟩ := reads
    have errors : w'.errors = importErrors ++ memberErrors := stop'.errors
    refine ⟨{ w' with errors := w'.errors ++ [e] }, ?_, stop'.laps, stop'.furthest⟩
    rw [attempt_bind ends']
    dsimp only
    rw [← errors]
    rfl

end Classwright.Source

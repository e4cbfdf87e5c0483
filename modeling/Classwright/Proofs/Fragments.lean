import Classwright.Proofs.Extending
import Classwright.Proofs.Scanning

/-!
# Fragments of classes

A fragment is read up to its end, as statements or as members of a class. Between the braces of a
body, or in front of more members, it reads as the same statements or members.
-/

namespace Classwright.Source.Cursor

open Step

variable {ext : List Token} {c c' d : Cursor}

/-! ### Parts of members -/

theorem reads_modifiersFrom (inert : Inert ext) {m m' : Modifiers} {c c' d : Cursor}
    (read : (modifiersFrom m c).Gives m' d) (some_ : d.tokens ≠ [])
    (more : c'.tokens = c.tokens ++ ext) :
    (modifiersFrom m c').Reads id m' (d.tokens ++ ext) := by
  rw [modifiersFrom] at read ⊢
  obtain ⟨rest, f, p, whole⟩ : ∃ rest f p, c = ⟨rest, f, p⟩ := ⟨_, _, _, rfl⟩
  cases rest with
  | nil =>
    rw [whole] at read
    obtain ⟨rfl, rfl⟩ := gives_stay.1 read
    exact absurd rfl some_
  | cons first rest =>
    obtain ⟨t, span⟩ := first
    have size : (past ⟨⟨t, span⟩ :: rest, f, p⟩ ⟨t, span⟩ rest).remaining + 1 = c.remaining :=
      (congrArg remaining whole).symm
    rw [whole] at read more
    obtain ⟨span', rest', f', p', rfl, left⟩ := eq_of_tokens_more more
    cases t with
    | keyword k =>
      simp only at read ⊢
      cases modifier : applyModifier m k with
      | none =>
        simp only [modifier] at read ⊢
        obtain ⟨rfl, rfl⟩ := gives_stay.1 read
        exact reads_stay_of rfl more
      | some found =>
        simp only [modifier] at read ⊢
        cases found with
        | error cause => exact absurd read gives_error
        | ok m₁ =>
          simp only [gives_loosen, gives_behindMaybe, reads_loosen, reads_behindMaybe] at read ⊢
          exact reads_modifiersFrom inert read some_ left
    | _ =>
      obtain ⟨rfl, rfl⟩ := gives_stay.1 read
      exact reads_stay_of rfl more
termination_by c.remaining
decreasing_by omega

theorem reads_typeList (inert : Inert ext) {c c' d : Cursor} {types : List TypeName}
    (read : (typeList c).Gives types d) (more : c'.tokens = c.tokens ++ ext) :
    (typeList c').Reads (List.map TypeName.bare) (types.map TypeName.bare) (d.tokens ++ ext) := by
  rw [typeList] at read ⊢
  replace read := gives_andMaybe.1 read
  obtain ⟨type, mid, shorter, first, read⟩ := read
  refine (reads_typeName_more inert first more).andMaybe fun type' mid' _ same tokens => ?_
  obtain ⟨rest, f, p⟩ := mid
  cases rest with
  | nil =>
    obtain ⟨rfl, rfl⟩ := gives_stay.1 read
    rw [List.map_singleton, ← same, ← tokens]
    rcases cases_of_inert inert tokens with ⟨f', p', rfl⟩ | ⟨t, s, rest', f', p', rfl, h⟩
    · exact reads_stay
    · rcases h with rfl | rfl | rfl <;> exact reads_stay
  | cons sign rest =>
    have size : (past ⟨sign :: rest, f, p⟩ sign rest).remaining + 1
        = remaining ⟨sign :: rest, f, p⟩ := rfl
    obtain ⟨s', rest', f', p', rfl, left⟩ := eq_of_tokens_more tokens
    simp only at read ⊢
    split at read
    · rename_i comma
      rw [if_pos comma, reads_loosen, reads_behind]
      rw [gives_loosen, gives_behind, gives_map] at read
      obtain ⟨types', typesRead, rfl⟩ := read
      refine (reads_typeList inert typesRead left).map fun types'' same' => ?_
      rw [List.map_cons, List.map_cons, same, same']
    · rename_i last
      rw [if_neg last]
      obtain ⟨rfl, rfl⟩ := gives_stay.1 read
      exact reads_stay_of (by rw [List.map_singleton, List.map_singleton, same]) tokens
termination_by c.remaining
decreasing_by omega

theorem reads_typesAfter (inert : Inert ext) {k : Keyword} (notPublic : k ≠ .public_)
    (notProtected : k ≠ .protected_) {types : List TypeName}
    (read : (typesAfter k c).Gives types d) (more : c'.tokens = c.tokens ++ ext) :
    (typesAfter k c').Reads (List.map TypeName.bare) (types.map TypeName.bare)
      (d.tokens ++ ext) := by
  unfold typesAfter at read ⊢
  rw [gives_andMaybe] at read
  obtain ⟨found, e₁, _, eaten, read⟩ := read
  rcases gives_eat eaten with ⟨rfl, there⟩ | ⟨rfl, rfl, absent⟩
  · rw [there, List.cons_append] at more
    refine (reads_eat_some more).andMaybe ?_
    rintro _ d₁ _ rfl left₁
    simp only [gives_loosen, if_true] at read ⊢
    rw [reads_loosen]
    exact reads_typeList inert read left₁
  · have absent' : c'.tokens.head? ≠ some (.keyword k) := by
      rw [more]
      cases tokens : c.tokens with
      | nil => cases inert <;> simp [Ne.symm notPublic, Ne.symm notProtected]
      | cons t ts => rwa [tokens] at absent
    refine (reads_eat_none absent').andMaybe ?_
    rintro _ d₁ _ rfl left₁
    simp only [Bool.false_eq_true, if_false] at read ⊢
    obtain ⟨rfl, rfl⟩ := gives_stay.1 read
    exact reads_stay_of rfl (left₁.trans more)

theorem reads_paramTail (inert : Inert ext) {c c' d : Cursor} {params : List Param}
    (read : (paramTail c).Gives params d) (more : c'.tokens = c.tokens ++ ext) :
    (paramTail c').Reads (List.map Param.bare) (params.map Param.bare) (d.tokens ++ ext) := by
  rw [paramTail] at read ⊢
  replace read := gives_andThen.1 read
  obtain ⟨type, e₁, shorter₁, typeRead, read⟩ := read
  replace read := gives_andThen.1 read
  obtain ⟨⟨name, span⟩, e₂, shorter₂, nameRead, read⟩ := read
  refine (reads_typeName_more inert typeRead more).andThen fun type' d₁ _ same₁ left₁ => ?_
  rw [tokens_of_expectIdentifier nameRead, List.cons_append] at left₁
  refine (reads_expectIdentifier left₁).andThen ?_
  rintro ⟨name', span'⟩ d₂ _ rfl tokens
  obtain ⟨rest, f, p⟩ := e₂
  cases rest with
  | nil => exact absurd read gives_error
  | cons sign rest =>
    have size : (past ⟨sign :: rest, f, p⟩ sign rest).remaining + 1
        = remaining ⟨sign :: rest, f, p⟩ := rfl
    have close : ((expectSymbol ⟨sign :: rest, f, p⟩ .rightParen).map fun _ =>
          [Param.mk type name' (type.span.through span)]).Gives params d →
        ((expectSymbol d₂ .rightParen).map fun _ =>
          [Param.mk type' name' (type'.span.through span')]).Reads (List.map Param.bare)
            (params.map Param.bare) (d.tokens ++ ext) := by
      intro closed
      obtain ⟨_, closeRead, rfl⟩ := gives_map.1 closed
      rw [tokens_of_expectSymbol closeRead, List.cons_append] at tokens
      refine (reads_expectSymbol tokens).map fun _ _ => ?_
      simp only [List.map_cons, List.map_nil, Param.bare, same₁]
    obtain ⟨s', rest', f', p', rfl, left⟩ := eq_of_tokens_more tokens
    simp only at read ⊢
    split at read
    · rename_i comma
      rw [if_pos comma, reads_behind]
      rw [gives_behind, gives_map] at read
      obtain ⟨params', paramsRead, rfl⟩ := read
      refine (reads_paramTail inert paramsRead left).map fun params'' same₂ => ?_
      simp only [List.map_cons, Param.bare, same₁, same₂]
    · rename_i last
      rw [if_neg last]
      exact close read
termination_by c.remaining
decreasing_by omega

theorem reads_params (inert : Inert ext) {params : List Param}
    (read : (Cursor.params c).Gives params d) (more : c'.tokens = c.tokens ++ ext) :
    (Cursor.params c').Reads (List.map Param.bare) (params.map Param.bare) (d.tokens ++ ext) := by
  unfold Cursor.params at read ⊢
  rw [gives_andThen] at read
  obtain ⟨_, e₁, _, open_, read⟩ := read
  rw [tokens_of_expectSymbol open_, List.cons_append] at more
  refine (reads_expectSymbol more).andThen fun _ d₁ _ _ left₁ => ?_
  rw [atSymbol_inert inert (by decide) left₁]
  split at read
  · rename_i none_
    rw [if_pos none_]
    obtain ⟨_, close, rfl⟩ := gives_map.1 read
    rw [tokens_of_expectSymbol close, List.cons_append] at left₁
    exact (reads_expectSymbol left₁).map fun _ _ => rfl
  · rename_i some_
    rw [if_neg some_]
    exact reads_paramTail inert read left₁

theorem reads_returnType (inert : Inert ext) {type : Option TypeName}
    (read : (returnType c).Gives type d) (more : c'.tokens = c.tokens ++ ext) :
    (returnType c').Reads (Option.map TypeName.bare) (type.map TypeName.bare)
      (d.tokens ++ ext) := by
  have named : (c.typeName.map some).Gives type d →
      (c'.typeName.map some).Reads (Option.map TypeName.bare) (type.map TypeName.bare)
        (d.tokens ++ ext) := by
    intro named
    obtain ⟨t, typeRead, rfl⟩ := gives_map.1 named
    refine (reads_typeName_more inert typeRead more).map fun t' same => ?_
    rw [Option.map_some, Option.map_some, same]
  unfold returnType at read ⊢
  obtain ⟨rest, f, p⟩ := c
  cases rest with
  | nil =>
    obtain ⟨t, typeRead, -⟩ := gives_map.1 read
    cases typeAt?_of_gives typeRead
  | cons first rest =>
    obtain ⟨t, span⟩ := first
    obtain ⟨span', rest', f', p', rfl, left⟩ := eq_of_tokens_more more
    cases t with
    | keyword k =>
      cases k with
      | void =>
        obtain ⟨rfl, rfl⟩ := gives_ok.1 read
        exact ⟨_, _, gives_ok.2 ⟨rfl, rfl⟩, rfl, left⟩
      | _ => exact named read
    | _ => exact named read

/-! ### Members -/

theorem tokens_ne_nil {α : Type} {s : Step α c.remaining} {a : α} (h : s.Gives a d) :
    c.tokens ≠ [] := by
  intro none_
  have := h.shorter
  rw [remaining_eq c, none_] at this
  exact absurd this (Nat.not_lt_zero _)

theorem opensConstructor_more (inert : Inert ext) {className : String} (some_ : c.tokens ≠ [])
    (more : c'.tokens = c.tokens ++ ext) :
    opensConstructor className c' = opensConstructor className c := by
  unfold opensConstructor
  rw [current?_eq, current?_eq, next?_eq, next?_eq, more]
  match tokens : c.tokens with
  | [] => exact absurd tokens some_
  | [t] => cases inert <;> simp
  | t :: u :: ts => rfl

theorem reads_member (inert : Inert ext) {className : String} {m : Member}
    (read : (member className c).Gives m d) (more : c'.tokens = c.tokens ++ ext) :
    (member className c').Reads Member.bare m.bare (d.tokens ++ ext) := by
  unfold member at read ⊢
  rw [gives_maybeThen] at read
  obtain ⟨modifiers, e₁, _, modifiersRead, read⟩ := read
  have some_ := tokens_ne_nil read
  refine (reads_modifiersFrom inert modifiersRead some_ more).maybeThen ?_
  rintro _ d₁ _ rfl left₁
  rw [opensConstructor_more inert some_ left₁]
  split at read
  · rename_i constructor
    rw [if_pos constructor]
    simp only [gives_andThen, gives_map] at read
    obtain ⟨⟨name, span⟩, e₂, _, nameRead, params, e₃, _, paramsRead, body, bodyRead, rfl⟩ := read
    rw [tokens_of_expectIdentifier nameRead, List.cons_append] at left₁
    refine (reads_expectIdentifier left₁).andThen ?_
    rintro ⟨name', span'⟩ d₂ _ rfl left₂
    refine (reads_params inert paramsRead left₂).andThen fun params' d₃ _ same₃ left₃ => ?_
    refine (reads_block inert bodyRead left₃).map fun body' same₄ => ?_
    simp only [Member.bare, ConstructorDecl.bare, same₃, same₄, id_eq]
  · rename_i other
    rw [if_neg other]
    rw [gives_andThen] at read
    obtain ⟨type, e₂, _, typeRead, read⟩ := read
    rw [gives_andThen] at read
    obtain ⟨⟨name, span⟩, e₃, _, nameRead, read⟩ := read
    refine (reads_returnType inert typeRead left₁).andThen fun type' d₂ _ same₂ left₂ => ?_
    rw [tokens_of_expectIdentifier nameRead, List.cons_append] at left₂
    refine (reads_expectIdentifier left₂).andThen ?_
    rintro ⟨name', span'⟩ d₃ _ rfl left₃
    dsimp only at read ⊢
    rw [atSymbol_inert inert (by decide) left₃]
    split at read
    · rename_i method
      rw [if_pos method]
      simp only [gives_andThen, gives_maybeThen, gives_map] at read
      obtain ⟨params, e₄, _, paramsRead, throws, e₅, _, throwsRead, body, bodyRead, rfl⟩ := read
      refine (reads_params inert paramsRead left₃).andThen fun params' d₄ _ same₄ left₄ => ?_
      refine (reads_typesAfter inert (by decide) (by decide) throwsRead left₄).maybeThen
        fun throws' d₅ _ same₅ left₅ => ?_
      refine (reads_block inert bodyRead left₅).map fun body' same₆ => ?_
      simp only [Member.bare, MethodDecl.bare, same₂, same₄, same₅, same₆, id_eq]
    · rename_i field
      rw [if_neg field]
      cases type with
      | none => exact absurd read gives_error
      | some type =>
        obtain ⟨type', rfl, shape⟩ := Option.map_eq_some_iff.1 same₂
        simp only [gives_maybeThen, gives_mapAt] at read ⊢
        obtain ⟨init, e₄, _, initRead, _, close, rfl⟩ := read
        refine (reads_initializer inert initRead left₃).maybeThen fun init' d₄ _ same₄ left₄ => ?_
        rw [tokens_of_expectSymbol close, List.cons_append] at left₄
        refine (reads_expectSymbol left₄).mapAt fun _ d₅ _ => ?_
        simp only [Member.bare, FieldDecl.bare, shape, same₄, id_eq]

/-- The members that come next have these shapes, and these tokens are left. -/
def Members (className : String) (c : Cursor) (ms : List Member) (rest : List Token) : Prop :=
  (members className c).1.map Member.bare = ms ∧ (members className c).2.1 = [] ∧
    (members className c).2.2.tokens = rest

theorem members_close {className : String} {rest : List Token}
    (close : c.tokens = .symbol .rightBrace :: rest) :
    Members className c [] (.symbol .rightBrace :: rest) := by
  obtain ⟨s, rest', f, p, rfl, rfl⟩ := eq_of_tokens_cons close
  unfold Members
  rw [members]
  exact ⟨rfl, rfl, rfl⟩

theorem members_end {className : String} (none_ : c.tokens = []) :
    Members className c [] [] := by
  obtain ⟨f, p, rfl⟩ := eq_of_tokens_nil none_
  unfold Members
  rw [members]
  exact ⟨rfl, rfl, rfl⟩

/-- A member and those behind it. -/
theorem members_cons {className : String} {m : Member} {ms : List Member} {left rest : List Token}
    (read : (member className c).Reads Member.bare m left)
    (next : ∀ d : Cursor, d.tokens = left → Members className d ms rest) :
    Members className c (m :: ms) rest := by
  obtain ⟨m', d, ⟨shorter, same⟩, rfl, rfl⟩ := read
  have behind := next d rfl
  unfold Members at behind ⊢
  have more : members className c = (m' :: (members className d).1, (members className d).2.1,
      (members className d).2.2) := by
    obtain ⟨rest, f, p⟩ := c
    cases rest with
    | nil => exact absurd shorter (Nat.not_lt_zero _)
    | cons first rest =>
      have notClose : first.token ≠ .symbol .rightBrace := by
        intro close
        obtain ⟨t, span⟩ := first
        subst close
        have opens : (member className ⟨⟨.symbol .rightBrace, span⟩ :: rest, f, p⟩).Gives m' d :=
          ⟨shorter, same⟩
        unfold member modifiers at opens
        rw [modifiersFrom] at opens
        simp only [gives_maybeThen, gives_stay] at opens
        obtain ⟨_, _, _, ⟨rfl, rfl⟩, opens⟩ := opens
        rw [if_neg (by simp [opensConstructor, current?]), gives_andThen] at opens
        obtain ⟨_, _, _, opens, -⟩ := opens
        simp only [returnType, gives_map] at opens
        obtain ⟨_, opens, -⟩ := opens
        cases typeAt?_of_gives opens
      rw [members]
      simp only [dif_neg notClose, same]
  rw [more, List.map_cons, behind.1]
  exact ⟨rfl, behind.2⟩

/-- Members read to the end of a fragment, and members behind it. -/
theorem members_append (inert : Inert ext) {className : String} {ms ms' : List Member}
    {rest : List Token} {c c' : Cursor} (read : Members className c ms [])
    (more : c'.tokens = c.tokens ++ ext)
    (next : ∀ d : Cursor, d.tokens = ext → Members className d ms' rest) :
    Members className c' (ms ++ ms') rest := by
  obtain ⟨shapes, noErrors, left⟩ := read
  rw [members] at shapes noErrors left
  obtain ⟨ls, f, p, whole⟩ : ∃ ls f p, c = ⟨ls, f, p⟩ := ⟨_, _, _, rfl⟩
  rw [whole] at shapes noErrors left more
  cases ls with
  | nil =>
    subst shapes
    exact next c' more
  | cons first ls =>
    simp only at shapes noErrors left
    split at shapes
    · rename_i close
      rw [dif_pos close] at left
      cases left
    · rename_i notClose
      simp only [dif_neg notClose] at noErrors left
      cases same : member className ⟨first :: ls, f, p⟩ with
      | error e stop =>
        simp only [same] at noErrors
        cases noErrors
      | ok m d shorter =>
        simp only [same, List.map_cons] at shapes noErrors left
        subst shapes
        have size : d.remaining < c.remaining := by rwa [whole]
        have first : (member className c).Gives m d := by
          rw [whole]
          exact ⟨shorter, same⟩
        rw [← whole] at more
        rw [List.cons_append]
        refine members_cons (reads_member inert first more) fun d' behind => ?_
        exact members_append inert ⟨rfl, noErrors, left⟩ behind next
termination_by c.remaining

/-! ### Statements -/

end Classwright.Source.Cursor

namespace Classwright.Source

end Classwright.Source

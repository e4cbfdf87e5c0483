import Classwright.Proofs.Fragments
import Classwright.Proofs.Synthesized

/-!
# Synthesized sources are read as they are meant

The source of a synthesized class is parsed to the unit that its contract and its hooks stand for:
imports and interfaces without repetitions, the superclass unless it is `Object`, and the members of
the class body followed by the constructor and one method for each abstract method of the contract.
-/

namespace Classwright

open Source Synthesis

namespace Synthesis

/-! ### The unit that is meant -/

/-- A type that is written as a name alone. -/
def named (name : String) : TypeName := ⟨name, 0, .blank⟩

/-- The superclass of the class, unless it is `Object`. -/
def meantSuperclass (hooks : Hooks) (contract : Descriptor) : Option String :=
  let chosen :=
    if contract.isInterface then (hooks.superclass contract).map (·.name) else some contract.name
  chosen.filter (· ≠ Builtin.object)

/-- The interfaces of the class in ascending order: those of the hooks and the contract itself, if
it is one. -/
def meantInterfaces (hooks : Hooks) (contract : Descriptor) : List String :=
  let names := (hooks.interfaces contract).map (·.name)
  ascending (names ++ if contract.isInterface then [contract.name] else []).eraseDups

/-- The public constructor without parameters. -/
def meantConstructor (className : String) (body : List Stmt) : Member :=
  .constructor ⟨{ visibility := some .visible }, className, [], ⟨Stmt.bareAll body, .blank⟩, .blank⟩

/-- Implementations are public unless what they implement is protected. -/
def meantVisibility (m : Method) : Visibility :=
  if m.visibility = .shielded then .shielded else .visible

/-- The method that implements an abstract method. -/
def meantMethod (m : Method) (body : List Stmt) : Member :=
  .method {
    modifiers := { visibility := some (meantVisibility m) }
    returnType := if m.returnType = .void then none else some (writtenType m.returnType)
    name := m.name
    params := m.params.mapIdx fun i t => ⟨writtenType t, paramName i, .blank⟩
    throws := m.throws.map named
    body := ⟨Stmt.bareAll body, .blank⟩
    span := .blank }

/-- The unit that contract and hooks stand for, when these are the members of the class body, the
statements of the constructor and those of each method. -/
def meantUnit (hooks : Hooks) (contract : Descriptor) (className : String) (own : List Member)
    (init : Option (List Stmt)) (bodies : Method → List Stmt) : CompilationUnit where
  imports := (hooks.imports contract).eraseDups.map fun path => ⟨path, .blank⟩
  decl := {
    modifiers := { visibility := some .visible }
    name := className
    superclass := (meantSuperclass hooks contract).map named
    interfaces := (meantInterfaces hooks contract).map named
    members := own.map Member.bare ++ (init.map (meantConstructor className)).toList
      ++ contract.abstractMethods.map fun m => meantMethod m (bodies m)
    span := .blank }

/-! ### Names without repetitions -/

theorem filter_distinct {α : Type} [BEq α] [LawfulBEq α] (p : α → Bool) (as : List α) :
    (distinct as).filter p = distinct (as.filter p) := by
  induction as with
  | nil => rfl
  | cons a as ih =>
    rw [distinct, List.filter_cons, List.filter_cons, List.filter_filter]
    split
    · rw [distinct, ← ih, List.filter_filter]
      congr 1
      exact List.filter_congr fun b _ => Bool.and_comm _ _
    · rename_i drop
      rw [← ih]
      refine List.filter_congr fun b _ => ?_
      by_cases same : b = a
      · rw [same, Bool.eq_false_iff.2 drop, Bool.false_and]
      · rw [bne_iff_ne.2 same, Bool.and_true]

theorem distinct_eq {α : Type} [BEq α] [LawfulBEq α] (as : List α) :
    distinct as = as.eraseDups := by
  match as with
  | [] => rfl
  | a :: as =>
    have := List.length_filter_le (fun b => !b == a) as
    rw [distinct, filter_distinct, List.eraseDups_cons]
    exact congrArg (a :: ·) (distinct_eq (as.filter fun b => !b == a))
termination_by as.length

theorem firstOfName_names (ds : List Descriptor) :
    (firstOfName ds).map (·.name) = distinct (ds.map (·.name)) := by
  induction ds with
  | nil => rfl
  | cons d ds ih =>
    rw [firstOfName, List.map_cons, List.map_cons, distinct, ← ih, List.filter_map]
    rfl

theorem distinct_distinct {α : Type} [BEq α] [LawfulBEq α] (as : List α) :
    distinct (distinct as) = distinct as := by
  induction as with
  | nil => rfl
  | cons a as ih =>
    have again : ((distinct as).filter (· != a)).filter (· != a)
        = (distinct as).filter (· != a) := by
      rw [List.filter_filter]
      exact List.filter_congr fun b _ => Bool.and_self _
    rw [distinct, distinct, ← filter_distinct, ih, again]

theorem distinct_append_left {α : Type} [BEq α] [LawfulBEq α] (as bs : List α) :
    distinct (distinct as ++ bs) = distinct (as ++ bs) := by
  have same : bs.removeAll (distinct as) = bs.removeAll as := by
    refine List.filter_congr fun b _ => ?_
    rw [distinct_eq, Bool.eq_iff_iff]
    simp
  rw [distinct_eq (distinct as ++ bs), distinct_eq (as ++ bs), List.eraseDups_append,
    List.eraseDups_append, same, ← distinct_eq (distinct as), distinct_distinct, distinct_eq as]

/-! ### Lists are read back -/

section

open Step

open Cursor (applyModifier)

variable {c : Cursor} {rest : List Token}

/-- Nothing that goes on with a type. -/
def EndsType (rest : List Token) : Prop :=
  rest.head? ≠ some (.symbol .dot) ∧ rest.head? ≠ some (.symbol .leftBracket)

theorem brackets_endsType (ends : EndsType rest) : brackets rest = (0, rest) := by
  rw [brackets]
  rintro more rfl
  exact ends.2 rfl

theorem typeAt?_name (name : String) (ends : EndsType rest) :
    typeAt? (nameTokens name ++ rest) = some (named name, rest) := by
  obtain ⟨first, more, tokens, text, left⟩ := qualified_nameTokens name ends.1
  rw [tokens, typeAt?, text, left, brackets_endsType ends]
  rfl

theorem typeAt?_written {t : TypeRef} (legal : Source.isWritable t = true) (ends : EndsType rest) :
    typeAt? (typeTokens t ++ rest) = some (writtenType t, rest) := by
  rw [typeAt?_typeTokens legal ends.1, brackets_endsType ends]
  rfl

/-- The tokens are the type, in front of whatever goes on with no type. -/
def SpellsType (ts : List Token) (t : TypeName) : Prop :=
  ∀ ⦃rest : List Token⦄, EndsType rest → typeAt? (ts ++ rest) = some (t, rest)

theorem reads_typeList {items : List (List Token × TypeName)} (some_ : items ≠ [])
    (spelled : ∀ i ∈ items, SpellsType i.1 i.2) {c : Cursor}
    (tokens : c.tokens = commaTokens (items.map Prod.fst) ++ rest) (ends : EndsType rest)
    (noComma : rest.head? ≠ some (.symbol .comma)) :
    (c.typeList).Reads (List.map TypeName.bare) (items.map Prod.snd) rest := by
  induction items generalizing c with
  | nil => exact absurd rfl some_
  | cons item items ih =>
    rw [Cursor.typeList]
    have spelledFirst := spelled item List.mem_cons_self
    cases items with
    | nil =>
      have first : c.typeName.Reads TypeName.bare item.2 rest := by
        apply Cursor.reads_typeName
        rw [tokens]
        simpa [commaTokens] using spelledFirst ends
      refine first.andMaybe ?_
      rintro type d _ same rfl
      have stay : (Step.stay [type] d).Reads (List.map TypeName.bare) ([item].map Prod.snd)
          d.tokens := by
        refine Cursor.reads_stay_of ?_ rfl
        rw [List.map_singleton, List.map_singleton, same]
      obtain ⟨ls, f, p⟩ := d
      cases ls with
      | nil => exact stay
      | cons sign ls =>
        have other : sign.token ≠ .symbol .comma := by
          rintro comma
          apply noComma
          rw [Cursor.tokens, List.map_cons, comma]
          rfl
        simp only
        rw [if_neg other]
        exact stay
    | cons second items =>
      have split : c.tokens = item.1
          ++ .symbol .comma :: (commaTokens ((second :: items).map Prod.fst) ++ rest) := by
        rw [tokens]
        simp [commaTokens, List.intercalate_cons_cons]
      have first : c.typeName.Reads TypeName.bare item.2
          (.symbol .comma :: (commaTokens ((second :: items).map Prod.fst) ++ rest)) := by
        apply Cursor.reads_typeName
        rw [split]
        exact spelledFirst ⟨by simp, by simp⟩
      refine first.andMaybe fun type d _ same left => ?_
      obtain ⟨s, ls, f, p, rfl, behind⟩ := Cursor.past_of_tokens_cons left
      simp only
      rw [if_pos trivial, reads_loosen, reads_behind]
      have others := fun i member => spelled i (List.mem_cons_of_mem item member)
      refine (ih (by simp) others behind).map fun types more => ?_
      rw [List.map_cons, same, more]
      rfl

/-- The types behind a keyword, which is left out without types. -/
theorem reads_typesAfter {k : Keyword} {items : List (List Token × TypeName)}
    (spelled : ∀ i ∈ items, SpellsType i.1 i.2)
    (tokens : c.tokens = (if items.isEmpty then [] else
      .keyword k :: commaTokens (items.map Prod.fst)) ++ rest) (ends : EndsType rest)
    (noComma : rest.head? ≠ some (.symbol .comma)) (noKeyword : rest.head? ≠ some (.keyword k)) :
    (c.typesAfter k).Reads (List.map TypeName.bare) (items.map Prod.snd) rest := by
  unfold Cursor.typesAfter
  cases items with
  | nil =>
    have absent : c.tokens.head? ≠ some (.keyword k) := by
      rw [tokens]
      exact noKeyword
    refine (Cursor.reads_eat_none absent).andMaybe ?_
    rintro _ d _ rfl left
    simp only [Bool.false_eq_true, if_false]
    exact Cursor.reads_stay_of rfl (left.trans tokens)
  | cons item items =>
    refine (Cursor.reads_eat_some (tokens.trans rfl)).andMaybe ?_
    rintro _ d _ rfl left
    simp only [if_true]
    rw [reads_loosen]
    exact reads_typeList (by simp) spelled left ends noComma

theorem reads_typesAfter_names {k : Keyword} {names : List String}
    (tokens : c.tokens = listTokens k names ++ rest) (ends : EndsType rest)
    (noComma : rest.head? ≠ some (.symbol .comma)) (noKeyword : rest.head? ≠ some (.keyword k)) :
    (c.typesAfter k).Reads (List.map TypeName.bare) (names.map named) rest := by
  have spelled : ∀ i ∈ names.map fun name => (nameTokens name, named name),
      SpellsType i.1 i.2 := by
    intro i member
    obtain ⟨name, _, rfl⟩ := List.mem_map.1 member
    exact fun rest ends => typeAt?_name name ends
  have spread : c.tokens = (if (names.map fun name => (nameTokens name, named name)).isEmpty
      then [] else .keyword k :: commaTokens ((names.map fun name =>
        (nameTokens name, named name)).map Prod.fst)) ++ rest := by
    simpa [listTokens, Function.comp_def] using tokens
  have read := reads_typesAfter spelled spread ends noComma noKeyword
  simpa [Function.comp_def] using read

/-- A parameter as it is read. -/
def meantParam (i : Nat) (t : TypeRef) : Param := ⟨writtenType t, paramName i, .blank⟩

/-- A parameter of the type and the name. -/
def paramOf (t : TypeName) (name : String) : Param := ⟨t, name, .blank⟩

/-- The tokens of parameters of types that are spelled, with their names. -/
def spelledParams (items : List (List Token × TypeName × String)) : List (List Token) :=
  items.map fun i => i.1 ++ [.identifier i.2.2]

theorem reads_paramTail {items : List (List Token × TypeName × String)} (some_ : items ≠ [])
    (spelled : ∀ i ∈ items, SpellsType i.1 i.2.1) {c : Cursor}
    (tokens : c.tokens = commaTokens (spelledParams items) ++ .symbol .rightParen :: rest) :
    (c.paramTail).Reads (List.map Param.bare) (items.map fun i => paramOf i.2.1 i.2.2) rest := by
  induction items generalizing c with
  | nil => exact absurd rfl some_
  | cons item items ih =>
    obtain ⟨ts, t, name⟩ := item
    have spelledFirst : SpellsType ts t := spelled _ List.mem_cons_self
    rw [Cursor.paramTail]
    have one : ∀ {more : List Token}, c.tokens = ts ++ .identifier name :: more →
        c.typeName.Reads TypeName.bare t (.identifier name :: more) := by
      intro more split
      apply Cursor.reads_typeName
      rw [split]
      exact spelledFirst ⟨by simp, by simp⟩
    have bare : ∀ {type : TypeName} {s : Span}, type.bare = t →
        Param.bare ⟨type, name, s⟩ = paramOf t name := by
      intro type s same
      rw [Param.bare, same]
      rfl
    cases items with
    | nil =>
      have split : c.tokens = ts ++ .identifier name :: .symbol .rightParen :: rest := by
        simpa [commaTokens, spelledParams] using tokens
      refine (one split).andThen fun type d _ same left => ?_
      refine (Cursor.reads_expectIdentifier left).andThen ?_
      rintro ⟨name, span⟩ e _ rfl left'
      have close : ((e.expectSymbol .rightParen).map fun _ =>
            [Param.mk type name (type.span.through span)]).Reads (List.map Param.bare)
          [paramOf t name] rest := by
        refine (Cursor.reads_expectSymbol left').map fun _ _ => ?_
        rw [List.map_singleton, bare same]
      obtain ⟨s, ls, f, p, rfl, behind⟩ := Cursor.past_of_tokens_cons left'
      simp only
      rw [if_neg (by simp)]
      exact close
    | cons second items =>
      have split : c.tokens = ts ++ .identifier name :: .symbol .comma
          :: (commaTokens (spelledParams (second :: items)) ++ .symbol .rightParen :: rest) := by
        rw [tokens]
        simp [commaTokens, spelledParams, List.intercalate_cons_cons]
      refine (one split).andThen fun type d _ same left => ?_
      refine (Cursor.reads_expectIdentifier left).andThen ?_
      rintro ⟨name, span⟩ e _ rfl left'
      obtain ⟨s, ls, f, p, rfl, behind⟩ := Cursor.past_of_tokens_cons left'
      simp only
      rw [if_pos trivial, reads_behind]
      have others := fun i member => spelled i (List.mem_cons_of_mem (ts, t, name) member)
      refine (ih (by simp) others behind).map fun params' more => ?_
      rw [List.map_cons, bare same, more]
      rfl

theorem reads_params {items : List (List Token × TypeName × String)}
    (spelled : ∀ i ∈ items, SpellsType i.1 i.2.1)
    (tokens : c.tokens = .symbol .leftParen :: (commaTokens (spelledParams items)
      ++ .symbol .rightParen :: rest)) :
    (c.params).Reads (List.map Param.bare) (items.map fun i => paramOf i.2.1 i.2.2) rest := by
  unfold Cursor.params
  refine (Cursor.reads_expectSymbol tokens).andThen fun _ d _ _ left => ?_
  rw [Cursor.atSymbol_eq]
  cases items with
  | nil =>
    have close : d.tokens = .symbol .rightParen :: rest := left
    rw [if_pos (by rw [close]; simp)]
    exact (Cursor.reads_expectSymbol close).map fun _ _ => rfl
  | cons item items =>
    -- what stands behind the parenthesis is a type
    have typed : ∃ more, EndsType more ∧ d.tokens = item.1 ++ more := by
      rw [left]
      cases items with
      | nil =>
        exact ⟨[.identifier item.2.2, .symbol .rightParen] ++ rest, ⟨by simp, by simp⟩,
          by simp [commaTokens, spelledParams]⟩
      | cons second items =>
        exact ⟨.identifier item.2.2 :: .symbol .comma :: (commaTokens (spelledParams
          (second :: items)) ++ .symbol .rightParen :: rest), ⟨by simp, by simp⟩,
          by simp [commaTokens, spelledParams, List.intercalate_cons_cons]⟩
    have notClose : d.tokens.head? ≠ some (.symbol .rightParen) := by
      intro close
      obtain ⟨more, ends, whole⟩ := typed
      have type := spelled item List.mem_cons_self ends
      obtain ⟨more', same⟩ := List.head?_eq_some_iff.1 close
      rw [← whole, same] at type
      cases type
    rw [if_neg (by simpa using notClose)]
    exact reads_paramTail (by simp) spelled left

theorem reads_params_written {params : List TypeRef}
    (legal : ∀ t ∈ params, Source.isWritable t = true)
    (tokens : c.tokens = .symbol .leftParen :: (commaTokens (params.mapIdx paramTokens)
      ++ .symbol .rightParen :: rest)) :
    (c.params).Reads (List.map Param.bare) (params.mapIdx meantParam) rest := by
  have spelled : ∀ i ∈ params.zipIdx.map fun p => (typeTokens p.1, writtenType p.1, paramName p.2),
      SpellsType i.1 i.2.1 := by
    intro i member
    obtain ⟨p, place, rfl⟩ := List.mem_map.1 member
    exact fun rest ends => typeAt?_written (legal p.1 (List.fst_mem_of_mem_zipIdx place)) ends
  have spread : c.tokens = .symbol .leftParen
      :: (commaTokens (spelledParams (params.zipIdx.map fun p =>
        (typeTokens p.1, writtenType p.1, paramName p.2))) ++ .symbol .rightParen :: rest) := by
    simpa [spelledParams, Function.comp_def, List.mapIdx_eq_zipIdx_map, paramTokens] using tokens
  have read := reads_params spelled spread
  simpa [Function.comp_def, List.mapIdx_eq_zipIdx_map, meantParam, paramOf] using read

/-! ### Members are read back -/

theorem reads_returnType {ts : List Token} {t : TypeName} (spelled : SpellsType ts t)
    (ends : EndsType rest) (tokens : c.tokens = ts ++ rest) :
    (c.returnType).Reads (Option.map TypeName.bare) (some t) rest := by
  have type : typeAt? c.tokens = some (t, rest) := by
    rw [tokens]
    exact spelled ends
  have read : (c.typeName.map some).Reads (Option.map TypeName.bare) (some t) rest :=
    (Cursor.reads_typeName type).map fun type' same => by rw [Option.map_some, same]
  unfold Cursor.returnType
  split
  · rename_i span ls same
    rw [Cursor.tokens, same] at type
    cases type
  · exact read

theorem reads_void (tokens : c.tokens = .keyword .void :: rest) :
    (c.returnType).Reads (Option.map TypeName.bare) none rest := by
  obtain ⟨s, ls, f, p, rfl, rfl⟩ := Cursor.past_of_tokens_cons tokens
  exact reads_ok (f := Option.map TypeName.bare) (a := none)

theorem reads_returnType_written {t : TypeRef}
    (legal : t = .void ∨ Source.isWritable t = true) (ends : EndsType rest)
    (tokens : c.tokens = typeTokens t ++ rest) :
    (c.returnType).Reads (Option.map TypeName.bare)
      (if t = .void then none else some (writtenType t)) rest := by
  rcases legal with rfl | legal
  · exact reads_void tokens
  · have notVoid : t ≠ .void := by
      rintro rfl
      cases legal
    rw [if_neg notVoid]
    exact reads_returnType (fun rest ends => typeAt?_written legal ends) ends tokens

/-- The one visibility keyword of a declaration. -/
theorem reads_visibility {k : Keyword} {v : Visibility}
    (shows : applyModifier {} k = some (.ok { visibility := some v }))
    (tokens : c.tokens = .keyword k :: rest)
    (stop : ∀ k', rest.head? = some (.keyword k') →
      applyModifier { visibility := some v } k' = none) :
    (c.modifiers).Reads id { visibility := some v } rest := by
  obtain ⟨s, ls, f, p, rfl, behind⟩ := Cursor.past_of_tokens_cons tokens
  unfold Cursor.modifiers
  rw [Cursor.modifiersFrom]
  simp only [shows]
  rw [reads_loosen, reads_behindMaybe, Cursor.modifiersFrom]
  generalize Cursor.past _ _ ls = d at *
  split
  · rename_i k' span more there
    have next := stop k' (by rw [← behind, Cursor.tokens, there]; rfl)
    simp only [next]
    exact Cursor.reads_stay_of rfl behind
  · exact Cursor.reads_stay_of rfl behind

theorem reads_block_written {body : List Token} {ss : List Stmt}
    (read : ∀ (c : Cursor) (rest : List Token), c.tokens = body ++ .symbol .rightBrace :: rest →
      (c.blockTail).Reads Stmt.bareAll (Stmt.bareAll ss) rest)
    (tokens : c.tokens = .symbol .leftBrace :: (body ++ .symbol .rightBrace :: rest)) :
    (c.block).Reads Block.bare ⟨Stmt.bareAll ss, .blank⟩ rest := by
  unfold Cursor.block
  refine (Cursor.reads_expectSymbol tokens).andThen fun _ d _ _ left => ?_
  refine (read d rest left).mapAt fun ss' _ same => ?_
  rw [Block.bare, same]

/-- A type is no name in front of a parenthesis. -/
theorem typeTokens_next (t : TypeRef) (rest : List Token)
    (stop : rest.head? ≠ some (.symbol .leftParen)) :
    (typeTokens t ++ rest)[1]? ≠ some (.symbol .leftParen) := by
  have single : ∀ u : Token, ([u] ++ rest)[1]? ≠ some (.symbol .leftParen) := by
    intro u
    rw [List.singleton_append, List.getElem?_cons_succ, ← List.head?_eq_getElem?]
    exact stop
  induction t generalizing rest with
  | void => exact single _
  | primitive kind => exact single _
  | named name =>
    rw [typeTokens, nameTokens]
    rcases parts : nameParts name with _ | ⟨part, _ | ⟨q, others⟩⟩
    · exact absurd parts (nameParts_ne_nil name)
    · exact single _
    · simp [dotTokens]
  | array element ih =>
    rw [typeTokens, List.append_assoc]
    refine ih _ (by simp) fun u => ?_
    simp

theorem typeTokens_head (t : TypeRef) (legal : t = .void ∨ Source.isWritable t = true)
    {k : Keyword} (head : (typeTokens t ++ rest).head? = some (.keyword k)) : k = .void := by
  rcases legal with rfl | legal
  · cases head
    rfl
  · exfalso
    have ends : ([] : List Token).head? ≠ some (.symbol .dot) := by simp
    have type := typeAt?_typeTokens legal ends
    rw [List.append_nil] at type
    cases tokens : typeTokens t with
    | nil =>
      rw [tokens] at type
      cases type
    | cons u us =>
      rw [tokens] at head type
      cases head
      cases type

theorem reads_method {className : String} {m : Method} (legal : m.isWritable = true)
    {body : List Token} {ss : List Stmt}
    (read : ∀ (c : Cursor) (rest : List Token), c.tokens = body ++ .symbol .rightBrace :: rest →
      (c.blockTail).Reads Stmt.bareAll (Stmt.bareAll ss) rest)
    (tokens : c.tokens = bodiedTokens (methodTokens m) body ++ rest) :
    (c.member className).Reads Member.bare (meantMethod m ss) rest := by
  obtain ⟨name, type, params, throws⟩ := isWritable_spec legal
  have split : c.tokens = .keyword (visibilityKeyword m) :: (typeTokens m.returnType
      ++ .identifier m.name :: .symbol .leftParen :: (commaTokens (m.params.mapIdx paramTokens)
        ++ .symbol .rightParen :: (listTokens .throws m.throws
          ++ .symbol .leftBrace :: (body ++ .symbol .rightBrace :: rest)))) := by
    rw [tokens]
    simp [bodiedTokens, methodTokens]
  unfold Cursor.member
  have shows : applyModifier {} (visibilityKeyword m)
      = some (.ok { visibility := some (meantVisibility m) }) := by
    unfold visibilityKeyword meantVisibility
    split <;> rfl
  have stops : ∀ v k, k = Keyword.void → applyModifier { visibility := some v } k = none := by
    rintro v k rfl
    rfl
  refine (reads_visibility shows split fun k head => stops _ k
    (typeTokens_head _ type head)).maybeThen fun modifiers d _ same₀ left₀ => ?_
  have noConstructor : Cursor.opensConstructor className d = false := by
    have next := typeTokens_next m.returnType (.identifier m.name :: .symbol .leftParen
      :: (commaTokens (m.params.mapIdx paramTokens) ++ .symbol .rightParen ::
        (listTokens .throws m.throws ++ .symbol .leftBrace
          :: (body ++ .symbol .rightBrace :: rest)))) (by simp)
    unfold Cursor.opensConstructor
    rw [Cursor.next?_eq, left₀, Bool.and_eq_false_iff]
    exact .inr (by simpa using next)
  rw [noConstructor, if_neg Bool.false_ne_true]
  refine (reads_returnType_written type ⟨by simp, by simp⟩ left₀).andThen
    fun returnType d₁ _ same₁ left₁ => ?_
  refine (Cursor.reads_expectIdentifier left₁).andThen ?_
  rintro ⟨name', span⟩ d₂ _ rfl left₂
  dsimp only
  rw [Cursor.atSymbol_eq, left₂, if_pos (by simp)]
  refine (reads_params_written params left₂).andThen fun params' d₃ _ same₃ left₃ => ?_
  refine (reads_typesAfter_names left₃ ⟨by simp, by simp⟩ (by simp) (by simp)).maybeThen
    fun throws' d₄ _ same₄ left₄ => ?_
  refine (reads_block_written read left₄).map fun block same₅ => ?_
  simp only [Member.bare, MethodDecl.bare, meantMethod, same₁, same₃, same₄, same₅, ← same₀, id_eq]
  rfl

theorem reads_constructor {className : String} {body : List Token} {ss : List Stmt}
    (read : ∀ (c : Cursor) (rest : List Token), c.tokens = body ++ .symbol .rightBrace :: rest →
      (c.blockTail).Reads Stmt.bareAll (Stmt.bareAll ss) rest)
    (tokens : c.tokens = bodiedTokens (constructorTokens className) body ++ rest) :
    (c.member className).Reads Member.bare (meantConstructor className ss) rest := by
  have split : c.tokens = .keyword .public_ :: .identifier className :: .symbol .leftParen
      :: .symbol .rightParen :: .symbol .leftBrace :: (body ++ .symbol .rightBrace :: rest) := by
    rw [tokens]
    simp [bodiedTokens, constructorTokens]
  unfold Cursor.member
  refine (reads_visibility (v := .visible) rfl split (by simp)).maybeThen
    fun modifiers d _ same₀ left₀ => ?_
  have opens : Cursor.opensConstructor className d = true := by
    unfold Cursor.opensConstructor
    rw [Cursor.current?_eq, Cursor.next?_eq, left₀]
    simp
  rw [opens, if_pos rfl]
  refine (Cursor.reads_expectIdentifier left₀).andThen ?_
  rintro ⟨name', span⟩ d₂ _ rfl left₂
  have none_ : ∀ t ∈ ([] : List TypeRef), Source.isWritable t = true := by simp
  refine (reads_params_written none_ left₂).andThen
    fun params' d₃ _ same₃ left₃ => ?_
  refine (reads_block_written read left₃).map fun block same₅ => ?_
  simp only [Member.bare, ConstructorDecl.bare, meantConstructor, same₃, same₅, ← same₀, id_eq]
  rfl

/-! ### The unit is read back -/

def headerBare (h : Cursor.Header) : Cursor.Header :=
  { h with superclass := h.superclass.map TypeName.bare, interfaces := h.interfaces.map .bare }

theorem reads_extended {item : Option (List Token × TypeName)}
    (spelled : ∀ i ∈ item, SpellsType i.1 i.2) (ends : EndsType rest)
    (noKeyword : rest.head? ≠ some (.keyword .extends_))
    (tokens : c.tokens = item.toList.flatMap (fun i => .keyword .extends_ :: i.1) ++ rest) :
    (c.extended).Reads (Option.map TypeName.bare) (item.map Prod.snd) rest := by
  unfold Cursor.extended
  cases item with
  | none =>
    have absent : c.tokens.head? ≠ some (.keyword .extends_) := by
      rw [tokens]
      exact noKeyword
    refine (Cursor.reads_eat_none absent).andMaybe ?_
    rintro _ d _ rfl left
    simp only [Bool.false_eq_true, if_false]
    exact Cursor.reads_stay_of rfl (left.trans tokens)
  | some i =>
    rw [Option.toList_some, List.flatMap_singleton, List.cons_append] at tokens
    refine (Cursor.reads_eat_some tokens).andMaybe ?_
    rintro _ d _ rfl left
    simp only [if_true]
    have type : typeAt? d.tokens = some (i.2, rest) := by
      rw [left]
      exact spelled i rfl ends
    rw [reads_loosen]
    refine (Cursor.reads_typeName type).map fun type' same => ?_
    rw [Option.map_some, Option.map_some, same]

theorem reads_extended_name {superclass : Option String} (ends : EndsType rest)
    (noKeyword : rest.head? ≠ some (.keyword .extends_))
    (tokens : c.tokens = extendsTokens superclass ++ rest) :
    (c.extended).Reads (Option.map TypeName.bare) (superclass.map named) rest := by
  have spelled : ∀ i ∈ superclass.map fun name => (nameTokens name, named name),
      SpellsType i.1 i.2 := by
    intro i member
    obtain ⟨name, _, rfl⟩ := Option.map_eq_some_iff.1 member
    exact fun rest ends => typeAt?_name name ends
  have read := reads_extended (c := c) spelled ends noKeyword (by
    rw [tokens]
    cases superclass <;> simp [extendsTokens])
  simpa [Function.comp_def] using read

theorem listTokens_ends (k : Keyword) (names : List String) (s : Symbol) (notDot : s ≠ .dot)
    (notBracket : s ≠ .leftBracket) :
    EndsType (listTokens k names ++ .symbol s :: rest) := by
  cases names with
  | nil => exact ⟨by simp [listTokens, notDot], by simp [listTokens, notBracket]⟩
  | cons => exact ⟨by simp [listTokens], by simp [listTokens]⟩

theorem reads_header {className : String} {superclass : Option String} {interfaces : List String}
    (tokens : c.tokens = headerTokens className superclass interfaces ++ rest) :
    (c.header).Reads headerBare ⟨{ visibility := some .visible }, className,
      superclass.map named, interfaces.map named⟩ rest := by
  have split : c.tokens = .keyword .public_ :: .keyword .class_ :: .identifier className
      :: (extendsTokens superclass ++ (listTokens .implements interfaces
        ++ .symbol .leftBrace :: rest)) := by
    rw [tokens]
    simp [headerTokens]
  have stop : (listTokens .implements interfaces ++ .symbol .leftBrace :: rest).head?
      ≠ some (.keyword .extends_) := by
    cases interfaces <;> simp [listTokens]
  unfold Cursor.header
  refine (reads_visibility (v := .visible) rfl split (by rintro _ ⟨⟩; rfl)).maybeThen
    fun modifiers d₀ _ same₀ left₀ => ?_
  refine (Cursor.reads_expectKeyword left₀).andThen fun _ d₁ _ _ left₁ => ?_
  refine (Cursor.reads_expectIdentifier left₁).andThen ?_
  rintro ⟨name, span⟩ d₂ _ rfl left₂
  refine (reads_extended_name (listTokens_ends _ _ _ (by decide) (by decide)) stop left₂).maybeThen
    fun superclass' d₃ _ same₃ left₃ => ?_
  refine (reads_typesAfter_names left₃ ⟨by simp, by simp⟩ (by simp) (by simp)).maybeThen
    fun interfaces' d₄ _ same₄ left₄ => ?_
  refine (Cursor.reads_expectSymbol left₄).map fun _ _ => ?_
  simp only [headerBare, same₃, same₄, ← same₀, id_eq]

theorem importPath_written (start : Span) {path : String}
    (tokens : c.tokens = nameTokens path ++ .symbol .semicolon :: rest) :
    ∃ i d, c.importPath start = (.ok i, d) ∧ i.path = path ∧ d.tokens = rest := by
  have stop : (.symbol .semicolon :: rest : List Token).head? ≠ some (.symbol .dot) := by simp
  obtain ⟨first, more, same, text, left⟩ := qualified_nameTokens path stop
  obtain ⟨⟨path', span⟩, d, ⟨shorter, read⟩, value, behind⟩ :=
    Cursor.reads_qualifiedName (tokens.trans same)
  obtain ⟨_, e, ⟨shorter', read'⟩, _, behind'⟩ :=
    Cursor.reads_expectSymbol (behind.trans left)
  refine ⟨⟨path', start.through e.previous⟩, e, ?_, value.trans text, behind'⟩
  unfold Cursor.importPath
  rw [read]
  dsimp only
  rw [read']

theorem imports_written {paths : List String} {c : Cursor}
    (tokens : c.tokens = paths.flatMap importTokens ++ rest)
    (stop : rest.head? ≠ some (.keyword .import_)) :
    (c.imports).1.map Import.bare = paths.map (fun path => ⟨path, .blank⟩) ∧
      (c.imports).2.1 = [] ∧ (c.imports).2.2.tokens = rest := by
  induction paths generalizing c with
  | nil =>
    rw [Cursor.imports]
    split
    · rename_i span ls same
      rw [Cursor.tokens, same] at tokens
      rw [← List.nil_append rest, ← List.flatMap_nil, ← tokens] at stop
      exact absurd rfl stop
    · exact ⟨rfl, rfl, tokens⟩
  | cons path paths ih =>
    have split : c.tokens = .keyword .import_ :: (nameTokens path
        ++ .symbol .semicolon :: (paths.flatMap importTokens ++ rest)) := by
      rw [tokens]
      simp [importTokens]
    obtain ⟨s, ls, f, p, rfl, behind⟩ := Cursor.past_of_tokens_cons split
    obtain ⟨i, d, read, value, left⟩ := importPath_written s behind
    obtain ⟨more, noErrors, last⟩ := ih left
    have whole : Cursor.imports ⟨⟨.keyword .import_, s⟩ :: ls, f, p⟩
        = (i :: (d.imports).1, (d.imports).2.1, (d.imports).2.2) := by
      rw [Cursor.imports]
      simp only
      split
      · rename_i same _
        cases read.symm.trans same
        rfl
      · rename_i same _
        cases read.symm.trans same
    rw [whole, List.map_cons, List.map_cons, more, Import.bare, value]
    exact ⟨rfl, noErrors, last⟩

theorem classDecl_written {head : Cursor.Header} {left : List Token} {ms : List Member}
    (read : (c.header).Reads headerBare head left)
    (members : ∀ d : Cursor, d.tokens = left →
      d.Members head.name ms (.symbol .rightBrace :: rest)) :
    (c.classDecl).1 = [] ∧ (c.classDecl).2.Reads ClassDecl.bare
      ⟨head.modifiers, head.name, head.superclass, head.interfaces, ms, .blank⟩ rest := by
  obtain ⟨head', d, ⟨shorter, same⟩, rfl, rfl⟩ := read
  obtain ⟨shapes, noErrors, behind⟩ := members d rfl
  have name : (headerBare head').name = head'.name := rfl
  rw [name] at shapes noErrors behind
  unfold Cursor.classDecl
  simp only [same]
  refine ⟨noErrors, ?_⟩
  rw [reads_upTo]
  refine (Cursor.reads_expectSymbol behind).mapAt fun _ e _ => ?_
  rw [ClassDecl.bare, shapes]
  rfl

/-- Imports and a class up to the end of the source are a unit. -/
theorem parse_of_reads {l : Lexed} {paths : List String} {decl : ClassDecl}
    (tokens : (Cursor.ofLexed l).tokens = paths.flatMap importTokens ++ rest)
    (stop : rest.head? ≠ some (.keyword .import_))
    (read : ∀ c : Cursor, c.tokens = rest →
      (c.classDecl).1 = [] ∧ (c.classDecl).2.Reads ClassDecl.bare decl []) :
    ∃ unit, parse l = .ok unit ∧ unit.bare = ⟨paths.map fun path => ⟨path, .blank⟩, decl⟩ := by
  obtain ⟨paths', noErrors, behind⟩ := imports_written tokens stop
  obtain ⟨noErrors', decl, d, ⟨shorter, same⟩, shape, left⟩ := read _ behind
  have done : d.rest = [] := List.map_eq_nil_iff.1 left
  refine ⟨⟨(Cursor.ofLexed l).imports.1, decl⟩, ?_, ?_⟩
  · unfold parse
    generalize Cursor.imports (Cursor.ofLexed l) = read at *
    obtain ⟨is, es, last⟩ := read
    dsimp only at noErrors noErrors' same ⊢
    generalize last.classDecl = read at *
    obtain ⟨es', step⟩ := read
    dsimp only at noErrors' same
    subst noErrors noErrors' same
    simp [done]
  · rw [CompilationUnit.bare, shape, paths']

/-- A unit made of these tokens. -/
theorem parse_written {l : Lexed} {paths : List String} {className : String}
    {superclass : Option String} {interfaces : List String} {body : List Token} {ms : List Member}
    (tokens : (Cursor.ofLexed l).tokens = paths.flatMap importTokens
      ++ (headerTokens className superclass interfaces ++ (body ++ [.symbol .rightBrace])))
    (members : ∀ d : Cursor, d.tokens = body ++ [.symbol .rightBrace] →
      d.Members className ms [.symbol .rightBrace]) :
    ∃ unit, parse l = .ok unit ∧ unit.bare = ⟨paths.map fun path => ⟨path, .blank⟩,
      ⟨{ visibility := some .visible }, className, superclass.map named, interfaces.map named, ms,
        .blank⟩⟩ :=
  parse_of_reads tokens (by simp [headerTokens]) fun _ left =>
    classDecl_written (reads_header left) members

/-- What a body reads as, wherever it stands. -/
def Body (tokens : List Token) (ss : List Stmt) : Prop :=
  ∀ (c : Cursor) (rest : List Token), c.tokens = tokens ++ .symbol .rightBrace :: rest →
    (c.blockTail).Reads Stmt.bareAll (Stmt.bareAll ss) rest

theorem members_methods {className : String} {methods : List Method}
    (legal : ∀ m ∈ methods, m.isWritable = true) {bodies : Method → List Token}
    {statements : Method → List Stmt} (read : ∀ m ∈ methods, Body (bodies m) (statements m))
    {c : Cursor} (tokens : c.tokens
      = methods.flatMap (fun m => bodiedTokens (methodTokens m) (bodies m))
        ++ [.symbol .rightBrace]) :
    c.Members className (methods.map fun m => meantMethod m (statements m))
      [.symbol .rightBrace] := by
  induction methods generalizing c with
  | nil => exact Cursor.members_close tokens
  | cons m methods ih =>
    rw [List.flatMap_cons, List.append_assoc] at tokens
    rw [List.map_cons]
    refine Cursor.members_cons (reads_method (legal m (by simp)) (read m (by simp)) tokens)
      fun d left => ?_
    exact ih (fun m' member => legal m' (List.mem_cons_of_mem _ member))
      (fun m' member => read m' (List.mem_cons_of_mem _ member)) left

theorem inert_methods (methods : List Method) (bodies : Method → List Token) :
    Inert (methods.flatMap (fun m => bodiedTokens (methodTokens m) (bodies m))
      ++ [.symbol .rightBrace]) := by
  cases methods with
  | nil => exact .brace _
  | cons m methods =>
    rw [List.flatMap_cons, bodiedTokens, methodTokens, visibilityKeyword]
    split
    · exact .shielded _
    · exact .visible _

/-- The members of the class body, the constructor and the methods. -/
theorem members_written {hooks : Hooks} {contract : Descriptor} {className : String}
    (legal : Legal hooks contract className) {own init : List Token} {bodies : Method → List Token}
    {members : List Member} {start : Option (List Stmt)} {statements : Method → List Stmt}
    (ownRead : ∀ c : Cursor, c.tokens = own → c.Members className members [])
    (given : start.isSome = (hooks.constructorBody contract).isSome)
    (initRead : ∀ ss ∈ start, Body init ss)
    (bodiesRead : ∀ m ∈ contract.abstractMethods, Body (bodies m) (statements m))
    {c : Cursor} (tokens : c.tokens
      = memberTokens hooks contract className own init bodies ++ [.symbol .rightBrace]) :
    c.Members className (members ++ (start.map (meantConstructor className)).toList
      ++ contract.abstractMethods.map fun m => meantMethod m (statements m))
      [.symbol .rightBrace] := by
  obtain ⟨before, whole⟩ : ∃ before : Cursor, before.tokens = own :=
    ⟨⟨own.map fun t => ⟨t, .blank⟩, .blank, .blank⟩, by simp [Cursor.tokens, Function.comp_def]⟩
  rw [List.append_assoc]
  have methods : ∀ d : Cursor,
      d.tokens = contract.abstractMethods.flatMap
          (fun m => bodiedTokens (methodTokens m) (bodies m)) ++ [.symbol .rightBrace] →
        d.Members className (contract.abstractMethods.map fun m => meantMethod m (statements m))
          [.symbol .rightBrace] := fun d left =>
    members_methods legal.methods bodiesRead left
  unfold memberTokens at tokens
  rw [List.append_assoc, List.append_assoc] at tokens
  cases body : hooks.constructorBody contract with
  | none =>
    rw [body] at given tokens
    have none_ : start = none := by simpa using given
    subst none_
    refine Cursor.members_append ?_ (ownRead before whole) (by rw [tokens, whole]; rfl) methods
    exact inert_methods _ _
  | some text =>
    rw [body] at given tokens
    obtain ⟨ss, rfl⟩ := Option.isSome_iff_exists.1 given
    refine Cursor.members_append ?_ (ownRead before whole) (by rw [tokens, whole]) ?_
    · exact .visible _
    · intro d left
      have split : d.tokens = bodiedTokens (constructorTokens className) init
          ++ (contract.abstractMethods.flatMap
              (fun m => bodiedTokens (methodTokens m) (bodies m)) ++ [.symbol .rightBrace]) := by
        rw [left]
        simp
      exact Cursor.members_cons (reads_constructor (initRead ss rfl) split) methods

end

/-! ### The source as a whole -/

theorem meantSuperclass_eq {hooks : Hooks} {contract : Descriptor} {superclass : Option String}
    {nominated : List Descriptor}
    (chosen : superclassOf hooks contract = .ok (superclass, nominated)) :
    meantSuperclass hooks contract = superclass.filter (· != Builtin.object) := by
  unfold superclassOf at chosen
  unfold meantSuperclass
  have same : (fun s => decide (s ≠ Builtin.object)) = fun s => s != Builtin.object := by
    funext s
    rw [bne, decide_not, beq_eq_decide]
  dsimp only
  rw [same]
  congr 1
  split at chosen
  · rename_i isInterface
    rw [if_pos isInterface]
    cases given : hooks.superclass contract with
    | none =>
      rw [given] at chosen
      cases chosen
      rfl
    | some s =>
      rw [given] at chosen
      dsimp only at chosen
      split at chosen
      · cases chosen
        rfl
      · cases chosen
  · rename_i isClass
    rw [if_neg isClass]
    cases chosen
    rfl

theorem meantInterfaces_eq (hooks : Hooks) (contract : Descriptor) :
    ascending (distinct ((firstOfName (hooks.interfaces contract)).map (·.name)
        ++ if contract.isInterface then [contract.name] else []))
      = meantInterfaces hooks contract := by
  rw [firstOfName_names, distinct_append_left, distinct_eq]
  rfl

theorem interfacesOf_eq_ok_iff {hooks : Hooks} {contract : Descriptor}
    {interfaces : List Descriptor} :
    interfacesOf hooks contract = .ok interfaces ↔
      (∀ i ∈ hooks.interfaces contract, i.isInterface = true) ∧
        interfaces = firstOfName (hooks.interfaces contract) := by
  constructor
  · intro chosen
    unfold interfacesOf at chosen
    dsimp only at chosen
    split at chosen
    · cases chosen
    · rename_i none_
      cases chosen
      exact ⟨by simpa using none_, rfl⟩
  · rintro ⟨legal, rfl⟩
    have none_ : (hooks.interfaces contract).find? (fun i => !i.isInterface) = none := by
      simpa using legal
    unfold interfacesOf
    simp only [none_]

theorem superclassOf_isOk_iff {hooks : Hooks} {contract : Descriptor} :
    (∃ superclass chosen, superclassOf hooks contract = .ok (superclass, chosen)) ↔
      (contract.isInterface = true → ∀ s ∈ hooks.superclass contract, s.isClass = true) := by
  unfold superclassOf
  by_cases isInterface : contract.isInterface = true
  · rw [if_pos isInterface]
    cases given : hooks.superclass contract with
    | none => simp
    | some s =>
      dsimp only
      by_cases isClass : s.isClass = true
      · simp [isClass]
      · simp [isClass, isInterface]
  · simp [isInterface]

/-- When there is a source, and what it is then. -/
theorem synthesize_eq_ok_iff {hooks : Hooks} {contract : Descriptor} {className : String}
    {source : ClassSource} :
    synthesize hooks contract className = .ok source ↔
      contract.isContract = true ∧ (∀ i ∈ hooks.interfaces contract, i.isInterface = true) ∧
        ∃ superclass chosen, superclassOf hooks contract = .ok (superclass, chosen) ∧
          source = {
            className := className
            text := importLines (distinct (hooks.imports contract))
              ++ header className superclass (meantInterfaces hooks contract)
              ++ members hooks contract className ++ "\x7d\n"
            nominated := chosen ++ firstOfName (hooks.interfaces contract) } := by
  constructor
  · intro made
    have isContract : contract.isContract = true := by
      by_contra other
      unfold synthesize at made
      rw [Bool.eq_false_iff.2 other] at made
      cases made
    unfold synthesize at made
    rw [isContract] at made
    cases chosen : superclassOf hooks contract with
    | error e =>
      rw [chosen] at made
      cases made
    | ok p =>
      cases found : interfacesOf hooks contract with
      | error e =>
        rw [chosen, found] at made
        cases made
      | ok interfaces =>
        rw [chosen, found] at made
        cases made
        obtain ⟨legal, rfl⟩ := interfacesOf_eq_ok_iff.1 found
        exact ⟨isContract, legal, p.1, p.2, rfl, by rw [← meantInterfaces_eq]⟩
  · rintro ⟨isContract, legal, superclass, chosen, named, rfl⟩
    unfold synthesize
    rw [isContract, named, interfacesOf_eq_ok_iff.2 ⟨legal, rfl⟩, ← meantInterfaces_eq]
    rfl

/-- The parts of the text that is synthesized. -/
theorem synthesize_text {hooks : Hooks} {contract : Descriptor} {className : String}
    {source : ClassSource} (made : synthesize hooks contract className = .ok source) :
    ∃ superclass nominated, superclassOf hooks contract = .ok (superclass, nominated) ∧
      source.text = importLines (distinct (hooks.imports contract))
        ++ header className superclass (meantInterfaces hooks contract)
        ++ members hooks contract className ++ "\x7d\n" := by
  obtain ⟨-, -, superclass, nominated, chosen, rfl⟩ := synthesize_eq_ok_iff.1 made
  exact ⟨superclass, nominated, chosen, rfl⟩

/-- A contract has a source just if the types that the hooks name for its header fit there. -/
theorem synthesize_isOk_iff {hooks : Hooks} {contract : Descriptor} {className : String} :
    (∃ source, synthesize hooks contract className = .ok source) ↔
      contract.isContract = true ∧
        (contract.isInterface = true → ∀ s ∈ hooks.superclass contract, s.isClass = true) ∧
        ∀ i ∈ hooks.interfaces contract, i.isInterface = true := by
  rw [← superclassOf_isOk_iff]
  constructor
  · rintro ⟨source, made⟩
    obtain ⟨isContract, legal, superclass, chosen, named, -⟩ := synthesize_eq_ok_iff.1 made
    exact ⟨isContract, ⟨superclass, chosen, named⟩, legal⟩
  · rintro ⟨isContract, ⟨superclass, chosen, named⟩, legal⟩
    exact ⟨_, synthesize_eq_ok_iff.2 ⟨isContract, legal, superclass, chosen, named, rfl⟩⟩

theorem mem_meantInterfaces_iff {hooks : Hooks} {contract : Descriptor} {name : String} :
    name ∈ meantInterfaces hooks contract ↔
      (∃ i ∈ hooks.interfaces contract, i.name = name) ∨
        contract.isInterface = true ∧ name = contract.name := by
  rw [meantInterfaces, ascending, List.mem_mergeSort, List.mem_eraseDups, List.mem_append,
    List.mem_map]
  cases contract.isInterface <;> simp

theorem mem_meantInterfaces {hooks : Hooks} {contract : Descriptor} {className name : String}
    (legal : Legal hooks contract className) (member : name ∈ meantInterfaces hooks contract) :
    isQualifiedName name = true := by
  rcases mem_meantInterfaces_iff.1 member with ⟨i, there, rfl⟩ | ⟨-, rfl⟩
  · exact legal.interfaces i there
  · exact legal.name

theorem mem_superclassOf {hooks : Hooks} {contract : Descriptor} {className name : String}
    {superclass : Option String} {nominated : List Descriptor}
    (legal : Legal hooks contract className)
    (chosen : superclassOf hooks contract = .ok (superclass, nominated))
    (member : name ∈ superclass.filter (· != Builtin.object)) : isQualifiedName name = true := by
  rw [← meantSuperclass_eq chosen] at member
  have there := (Option.mem_filter_iff.1 member).1
  split at there
  · obtain ⟨s, given, rfl⟩ := Option.map_eq_some_iff.1 there
    exact legal.superclass s given
  · cases there
    exact legal.name

/-- The source is read as what is meant, whatever the fragments of the hooks are read as. -/
theorem synthesize_reads {hooks : Hooks} {contract : Descriptor} {className : String}
    {own : List Member} {init : Option (List Stmt)} {bodies : Method → List Stmt}
    {ownTokens : List Token} (initTokens : List Token) {bodyTokens : Method → List Token}
    {source : ClassSource} (legal : Legal hooks contract className)
    (ownWords : words? ((hooks.classBody contract).getD "").toList = some ownTokens)
    (ownRead : ∀ c : Cursor, c.tokens = ownTokens → c.Members className (own.map Member.bare) [])
    (given : init.isSome = (hooks.constructorBody contract).isSome)
    (initWords : ∀ text ∈ hooks.constructorBody contract, words? text.toList = some initTokens)
    (initRead : ∀ ss ∈ init, Body initTokens ss)
    (methods : ∀ m ∈ contract.abstractMethods,
      words? ((hooks.methodBody contract m).getD "").toList = some (bodyTokens m) ∧
        Body (bodyTokens m) (bodies m))
    (made : synthesize hooks contract className = .ok source) :
    ∃ lexed unit, scan source.text = .ok lexed ∧ parse lexed = .ok unit ∧
      unit.bare = meantUnit hooks contract className own init bodies := by
  obtain ⟨superclass, nominated, chosen, text⟩ := synthesize_text made
  have imports : ∀ path ∈ distinct (hooks.imports contract), isQualifiedName path = true := by
    intro path member
    rw [distinct_eq, List.mem_eraseDups] at member
    exact legal.imports path member
  have spelled := (spells_imports imports).append
    ((spells_header legal.ownName (fun s => mem_superclassOf legal chosen)
        fun i => mem_meantInterfaces legal).append
      ((spells_members legal ownWords initWords fun m member => (methods m member).1).append
        ((Spells.layout (c := '\n') rfl .nil).sign (c := '\x7d') rfl)))
  have words := spelled.words?
  have whole : source.text.toList = (importLines (distinct (hooks.imports contract))).toList
      ++ ((header className superclass (meantInterfaces hooks contract)).toList
        ++ ((members hooks contract className).toList ++ ['\x7d', '\n'])) := by
    rw [text]
    simp only [String.toList_append, List.append_assoc]
    rfl
  rw [← whole] at words
  obtain ⟨lexed, scanned, tokens⟩ := words?_eq_some_iff.1 words
  obtain ⟨unit, parsed, bare⟩ := parse_written tokens fun d left =>
    members_written legal ownRead given initRead (fun m member => (methods m member).2) left
  refine ⟨lexed, unit, scanned, parsed, ?_⟩
  rw [bare, meantUnit, distinct_eq, meantSuperclass_eq chosen]

end Synthesis

namespace Sample

/-- An interface with two abstract methods. -/
def greeter : Descriptor where
  name := "app.Greeter"
  kind := .interface
  methods := [
    { name := "greet", returnType := .string, params := [.string, .array .int],
      throws := ["app.Failure"] },
    { name := "size", returnType := .int, isAbstract := false },
    { name := "reset", visibility := .shielded }]

/-- Fragments with comments, empty lines and white space around them. -/
def greeterHooks : Hooks where
  imports _ := ["app.Log", "app.Log"]
  superclass _ := some ⟨"app.Base", .abstractClass, none, [], [], []⟩
  classBody _ := some "\n// counts calls\nprivate int calls;   \n\n"
  constructorBody _ := some "calls = 0; /* none\n so far */"
  methodBody _ m := if m.name = "greet" then some "\n\n  calls += 1;\t\n return par0; \n" else none

end Sample

end Classwright

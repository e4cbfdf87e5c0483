import Classwright.Proofs.Indentation
import Classwright.Proofs.Reading

/-!
# Names and types as tokens

A legal name is a word that is neither a keyword nor a primitive type, or several of them with dots
between them. What is written for a name, a type or a list of them is scanned as its tokens in front
of any character that goes on with no word, and a written type is read back as it is.
-/

namespace Classwright.Source

open Text

/-! ### Words -/

def isWord : List Char → Bool
  | c :: cs => isNameStart c && cs.all isNamePart
  | [] => false

/-- A word that is free to be a name. -/
def isName (name : String) : Bool :=
  isWord name.toList && decide (wordToken name = .identifier name)

/-- The parts of a dotted name. -/
def nameParts (name : String) : List String := (splitAt '.' name.toList).map String.ofList

/-- Every part of the name is a name. -/
def isQualifiedName (name : String) : Bool := (nameParts name).all isName

/-- Names with dots between them. -/
def dotTokens : List String → List Token
  | [] => []
  | [part] => [.identifier part]
  | part :: parts => .identifier part :: .symbol .dot :: dotTokens parts

def nameTokens (name : String) : List Token := dotTokens (nameParts name)

section

variable {text a b : List Char} {ts us : List Token} {c sep : Char}

/-- The text spells these tokens in front of whatever goes on with no word. -/
def SpellsBefore (text : List Char) (ts : List Token) : Prop :=
  ∀ ⦃sep : Char⦄ ⦃b : List Char⦄ ⦃us : List Token⦄, isNamePart sep = false →
    Spells (sep :: b) us → Spells (text ++ sep :: b) (ts ++ us)

theorem Spells.before (h : Spells text ts) : SpellsBefore text ts := fun _ _ _ _ hb => h.append hb

theorem pieceAt_word {cs rest : List Char} (start : isNameStart c = true)
    (parts : cs.all isNamePart = true) (stop : isNamePart sep = false) :
    pieceAt c (cs ++ sep :: rest)
      = (cs.length, .token (wordToken (String.ofList (c :: cs)))) := by
  have noLayout : isLayout c = false := by
    refine Bool.eq_false_iff.2 fun layout => ?_
    have := blank_of_isLayout layout
    rw [solid_of_isNamePart (by rw [isNamePart, start, Bool.true_or])] at this
    cases this
  have noComment : ¬ OpensComment c (cs ++ sep :: rest) := by
    rintro ⟨rfl, -⟩
    exact absurd start (by decide)
  have taken : (cs ++ sep :: rest).takeWhile isNamePart = cs := by
    rw [List.takeWhile_append_of_pos fun d member => List.all_eq_true.1 parts d member,
      List.takeWhile_cons_of_neg (by simp [stop]), List.append_nil]
  rw [pieceAt_eq noLayout noComment, tokenAt, if_pos start, taken]
  rfl

/-- A word is one token. -/
theorem spellsBefore_word {word : List Char} (isWord_ : isWord word = true) :
    SpellsBefore word [wordToken (String.ofList word)] := by
  intro sep b us stop h rest
  match word with
  | c :: cs =>
    rw [isWord, Bool.and_eq_true] at isWord_
    rw [List.append_assoc, List.cons_append, List.cons_append,
      words?_token (pieceAt_word isWord_.1 isWord_.2 stop), List.drop_left, ← List.cons_append,
      h rest, Option.map_map]
    rfl

/-- Signs of one character that no longer sign starts with. -/
def loneSign? : Char → Option Symbol
  | '(' => some .leftParen
  | ')' => some .rightParen
  | '\x7b' => some .leftBrace
  | '\x7d' => some .rightBrace
  | '[' => some .leftBracket
  | ']' => some .rightBracket
  | ';' => some .semicolon
  | ',' => some .comma
  | '.' => some .dot
  | _ => none

theorem pieceAt_loneSign {s : Symbol} (sign : loneSign? c = some s) (cs : List Char) :
    pieceAt c cs = (0, .token (.symbol s)) := by
  have alone : ∀ d, Symbol.all.find? (·.chars == [c, d]) = none := by
    intro d
    unfold loneSign? at sign
    split at sign <;> first | (cases sign; done) | skip
    all_goals simp [Symbol.all, Symbol.chars]
  have lead : cs.head?.bind (fun d => Symbol.all.find? (·.chars == [c, d])) = none := by
    cases cs with
    | nil => rfl
    | cons d cs => exact alone d
  have same : symbolAt c cs = (0, .token (.symbol s)) := by
    rw [symbolAt, lead]
    unfold loneSign? at sign
    split at sign <;> cases sign <;> rfl
  have piece : pieceAt c cs = symbolAt c cs := by
    unfold loneSign? at sign
    split at sign <;> cases sign <;> simp [pieceAt, isLayout, isNameStart, isDigit]
  rw [piece, same]

theorem Spells.sign {s : Symbol} (sign : loneSign? c = some s) (h : Spells text ts) :
    Spells (c :: text) (.symbol s :: ts) := by
  intro rest
  rw [List.cons_append, words?_token (pieceAt_loneSign sign _), List.drop_zero, h rest,
    Option.map_map]
  rfl

/-! ### Names -/

theorem spellsBefore_name {name : String} (legal : isName name = true) :
    SpellsBefore name.toList [.identifier name] := by
  rw [isName, Bool.and_eq_true, decide_eq_true_eq] at legal
  have := spellsBefore_word legal.1
  rwa [String.ofList_toList, legal.2] at this

theorem spellsBefore_keyword (k : Keyword) : SpellsBefore k.text.toList [.keyword k] := by
  have word : isWord k.text.toList = true ∧
      wordToken (String.ofList k.text.toList) = .keyword k := by
    cases k <;> decide +kernel
  have := spellsBefore_word word.1
  rwa [word.2] at this

theorem spellsBefore_primitive (p : Primitive) :
    SpellsBefore p.keyword.toList [.primitive p] := by
  have word : isWord p.keyword.toList = true ∧
      wordToken (String.ofList p.keyword.toList) = .primitive p := by
    cases p <;> decide +kernel
  have := spellsBefore_word word.1
  rwa [word.2] at this

theorem intercalate_splitAt (cs : List Char) : [sep].intercalate (splitAt sep cs) = cs := by
  induction cs with
  | nil => rfl
  | cons c cs ih =>
    rw [splitAt]
    cases parts : splitAt sep cs with
    | nil => exact absurd parts (splitAt_ne_nil cs)
    | cons part parts' =>
      rw [parts] at ih
      split
      · rename_i same
        rw [List.intercalate_cons_cons, ih, same]
        rfl
      · rw [List.intercalate_cons_cons_left, ih]

theorem spellsBefore_dots {parts : List String} (some_ : parts ≠ [])
    (legal : parts.all isName = true) :
    SpellsBefore (['.'].intercalate (parts.map String.toList)) (dotTokens parts) := by
  induction parts with
  | nil => exact absurd rfl some_
  | cons part parts ih =>
    rw [List.all_cons, Bool.and_eq_true] at legal
    cases parts with
    | nil =>
      rw [List.map_singleton, List.intercalate_singleton]
      exact spellsBefore_name legal.1
    | cons q parts =>
      intro sep b us stop h
      have rest := (ih (by simp) legal.2 stop h).sign (c := '.') rfl
      have whole := spellsBefore_name legal.1 (by decide) rest
      rw [List.map_cons, List.map_cons, List.intercalate_cons_cons]
      simpa [dotTokens] using whole

theorem nameParts_ne_nil (name : String) : nameParts name ≠ [] := by
  intro none_
  exact splitAt_ne_nil _ (List.map_eq_nil_iff.1 none_)

theorem intercalate_nameParts (name : String) :
    ['.'].intercalate ((nameParts name).map String.toList) = name.toList := by
  rw [nameParts, List.map_map]
  have same : String.toList ∘ String.ofList = id := funext fun cs => String.toList_ofList
  rw [same, List.map_id, intercalate_splitAt]

theorem spellsBefore_qualified {name : String} (legal : isQualifiedName name = true) :
    SpellsBefore name.toList (nameTokens name) := by
  rw [← intercalate_nameParts name]
  exact spellsBefore_dots (nameParts_ne_nil name) legal

theorem dotted_dotTokens {parts : List String} (some_ : parts ≠ []) {rest : List Token}
    (stop : rest.head? ≠ some (.symbol .dot)) :
    dotted (.symbol .dot :: (dotTokens parts ++ rest))
      = ('.' :: ['.'].intercalate (parts.map String.toList), rest) := by
  have stay : dotted rest = ([], rest) := by
    rw [dotted]
    rintro name more rfl
    exact stop rfl
  induction parts with
  | nil => exact absurd rfl some_
  | cons part parts ih =>
    cases parts with
    | nil => simp [dotTokens, dotted, stay]
    | cons q parts =>
      have tail := ih (by simp)
      rw [dotTokens, List.cons_append, List.cons_append, dotted, tail]
      · simp [List.intercalate_cons_cons]
      · simp

/-- A dotted name is read as a whole. -/
theorem qualified_nameTokens (name : String) {rest : List Token}
    (stop : rest.head? ≠ some (.symbol .dot)) :
    ∃ first more, nameTokens name ++ rest = .identifier first :: more ∧
      String.ofList (first.toList ++ (dotted more).1) = name ∧ (dotted more).2 = rest := by
  have whole := intercalate_nameParts name
  unfold nameTokens
  match parts : nameParts name with
  | [] => exact absurd parts (nameParts_ne_nil name)
  | [part] =>
    rw [parts] at whole
    have stay : dotted rest = ([], rest) := by
      rw [dotted]
      rintro name more rfl
      exact stop rfl
    refine ⟨part, rest, rfl, ?_, by rw [stay]⟩
    rw [stay, List.append_nil, String.ofList_toList]
    exact String.toList_inj.1 (by simpa using whole)
  | part :: q :: parts' =>
    rw [parts] at whole
    have tail := dotted_dotTokens (List.cons_ne_nil q parts') stop
    refine ⟨part, .symbol .dot :: (dotTokens (q :: parts') ++ rest), ?_, ?_, by rw [tail]⟩
    · rw [dotTokens, List.cons_append, List.cons_append]
      simp
    · rw [tail]
      apply String.toList_inj.1
      rw [String.toList_ofList, ← whole]
      simp [List.intercalate_cons_cons]

/-! ### Types -/

/-- A type that values can have, with legal names. -/
def isWritable : TypeRef → Bool
  | .void => false
  | .primitive _ => true
  | .named name => isQualifiedName name
  | .array element => isWritable element

/-- The tokens that are written for a type. -/
def typeTokens : TypeRef → List Token
  | .void => [.keyword .void]
  | .primitive kind => [.primitive kind]
  | .named name => nameTokens name
  | .array element => typeTokens element ++ [.symbol .leftBracket, .symbol .rightBracket]

/-- The type as it is written. -/
def writtenType : TypeRef → TypeName
  | .array element => { writtenType element with dims := (writtenType element).dims + 1 }
  | t => ⟨t.canonicalName, 0, .blank⟩

theorem spellsBefore_type {t : TypeRef} (legal : isWritable t = true) :
    SpellsBefore t.canonicalName.toList (typeTokens t) := by
  induction t with
  | void => cases legal
  | primitive kind => exact spellsBefore_primitive kind
  | named name => exact spellsBefore_qualified legal
  | array element ih =>
    intro sep b us stop h
    have close := (h.sign (c := ']') rfl).sign (c := '[') rfl
    have whole := ih legal (by decide) close
    rw [TypeRef.canonicalName, String.toList_append, typeTokens, List.append_assoc,
      List.append_assoc]
    exact whole

theorem spellsBefore_returnType {t : TypeRef} (legal : t = .void ∨ isWritable t = true) :
    SpellsBefore t.canonicalName.toList (typeTokens t) := by
  rcases legal with rfl | legal
  · exact spellsBefore_keyword .void
  · exact spellsBefore_type legal

/-- A written type is read back. -/
theorem typeAt?_typeTokens {t : TypeRef} (legal : isWritable t = true) {rest : List Token}
    (stop : rest.head? ≠ some (.symbol .dot)) :
    typeAt? (typeTokens t ++ rest) = some
      ({ writtenType t with dims := (writtenType t).dims + (brackets rest).1 },
        (brackets rest).2) := by
  induction t generalizing rest with
  | void => cases legal
  | primitive kind =>
    rw [typeTokens, List.singleton_append, typeAt?, writtenType, Nat.zero_add]
    · rfl
    · simp
  | named name =>
    obtain ⟨first, more, tokens, text, left⟩ := qualified_nameTokens name stop
    rw [typeTokens, tokens, typeAt?]
    dsimp only
    rw [text, left, writtenType, Nat.zero_add]
    · rfl
    · simp
  | array element ih =>
    rw [typeTokens, List.append_assoc]
    refine (ih legal (by simp)).trans ?_
    rw [List.cons_append, List.singleton_append]
    rw [brackets, writtenType]
    simp only [Nat.add_assoc, Nat.add_comm 1]

theorem bare_writtenType (t : TypeRef) : (writtenType t).bare = writtenType t := by
  induction t with
  | array element ih =>
    have blank : (writtenType element).span = .blank := by rw [← ih]; rfl
    rw [writtenType, TypeName.bare, ← blank]
  | _ => rfl

/-! ### Lists -/

/-- Items with commas between them. -/
def commaTokens (items : List (List Token)) : List Token := [.symbol .comma].intercalate items

theorem spellsBefore_list (items : List (String × List Token))
    (spelled : ∀ i ∈ items, SpellsBefore i.1.toList i.2) :
    SpellsBefore (String.intercalate ", " (items.map (·.1))).toList
      (commaTokens (items.map (·.2))) := by
  induction items with
  | nil => exact fun _ _ _ _ h => h
  | cons first items ih =>
    cases items with
    | nil =>
      have := spelled first (by simp)
      simpa [commaTokens] using this
    | cons second items =>
      intro sep b us stop h
      have tail := ih (fun i member => spelled i (List.mem_cons_of_mem _ member)) stop h
      have whole := spelled first (by simp) (by decide)
        ((Spells.layout (c := ' ') rfl tail).sign (c := ',') rfl)
      rw [List.map_cons, List.map_cons, String.intercalate_cons_cons, commaTokens, List.map_cons,
        List.map_cons, List.intercalate_cons_cons]
      simp only [String.toList_append, List.append_assoc]
      exact whole

/-- Whole texts, a line feed apart. -/
theorem spells_lines (items : List (String × List Token))
    (spelled : ∀ i ∈ items, Spells i.1.toList i.2) :
    Spells (String.intercalate "\n" (items.map (·.1))).toList (items.flatMap (·.2)) := by
  induction items with
  | nil => exact .nil
  | cons first items ih =>
    have tail := ih fun i member => spelled i (List.mem_cons_of_mem _ member)
    have head := spelled first (by simp)
    cases items with
    | nil => simpa using head
    | cons second items =>
      rw [List.map_cons, List.map_cons, String.intercalate_cons_cons, List.flatMap_cons]
      simp only [String.toList_append, List.append_assoc]
      exact head.append (Spells.layout (c := '\n') rfl tail)

/-! ### Made names -/

/-- A word that none of the reserved words is. -/
theorem isName_of_word {name : String} (word : isWord name.toList = true)
    (keywords : ∀ k : Keyword, k.text ≠ name) (primitives : ∀ p : Primitive, p.keyword ≠ name) :
    isName name = true := by
  have noKeyword : Keyword.all.find? (·.text == name) = none :=
    List.find?_eq_none.2 fun k _ same => keywords k (eq_of_beq same)
  have noPrimitive : Primitive.ofKeyword? name = none :=
    List.find?_eq_none.2 fun p _ same => primitives p (eq_of_beq same)
  rw [isName, Bool.and_eq_true, decide_eq_true_eq]
  exact ⟨word, by rw [wordToken, noKeyword, noPrimitive]⟩

/-- Reserved words do not start like this. -/
theorem isName_of_prefix {name : String} (start : List Char) (word : isWord name.toList = true)
    (starts : name.toList.take start.length = start)
    (keywords : ∀ k : Keyword, k.text.toList.take start.length ≠ start)
    (primitives : ∀ p : Primitive, p.keyword.toList.take start.length ≠ start) :
    isName name = true := by
  refine isName_of_word word (fun k same => keywords k ?_) fun p same => primitives p ?_
  · rw [same, starts]
  · rw [same, starts]

theorem isNamePart_digits (n : Nat) : (Nat.toDigits 10 n).all isNamePart = true := by
  refine List.all_eq_true.2 fun d member => ?_
  have digit := Nat.isDigit_of_mem_toDigits (by decide) (by decide) member
  rw [isNamePart, Bool.or_eq_true]
  exact .inr digit

theorem toList_toString (n : Nat) : (toString n).toList = Nat.toDigits 10 n := Nat.toList_repr

theorem isName_paramName (i : Nat) : isName (paramName i) = true := by
  have chars : (paramName i).toList = 'p' :: 'a' :: 'r' :: Nat.toDigits 10 i := by
    rw [paramName, String.toList_append, toList_toString]
    rfl
  refine isName_of_prefix ['p', 'a'] ?_ (by rw [chars]; rfl) (fun k => ?_) fun p => ?_
  · rw [chars, isWord]
    simp only [List.all_cons, isNamePart_digits]
    rfl
  · cases k <;> decide +kernel
  · cases p <;> decide +kernel

end

end Classwright.Source

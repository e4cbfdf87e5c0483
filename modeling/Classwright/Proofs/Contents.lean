import Classwright.Proofs.Compiled

/-!
# What compiled code is made of

The constants of compiled code are literals of its source or stand for values that nobody wrote, and
a call on `super` is only compiled where a type above the class has code for it, or every object
answers it. Lowering keeps to this whether it reports anything or not.
-/

namespace Classwright

namespace Code

variable (constant : Constant → Prop) (above : String → Nat → Prop)

mutual

/-- Only such constants and such calls on `super`, by name and number of arguments, stand in the
expression. -/
def Expr.Only : Expr → Prop
  | .const c => constant c
  | .var _ | .this | .field _ | .static _ => True
  | .storeVar _ e | .storeField _ e | .storeStatic _ e | .unary _ e | .cast _ _ e => e.Only
  | .binary _ l r | .and l r | .or l r => l.Only ∧ r.Only
  | .conditional c t e => c.Only ∧ t.Only ∧ e.Only
  | .invoke receiver _ args => receiver.Only ∧ Expr.AllOnly args
  | .invokeSuper name args => above name args.length ∧ Expr.AllOnly args

def Expr.AllOnly : List Expr → Prop
  | [] => True
  | e :: es => e.Only ∧ Expr.AllOnly es

end

mutual

def Stmt.Only : Stmt → Prop
  | .expr e | .throw e => e.Only constant above
  | .ret value => ∀ e ∈ value, e.Only constant above
  | .cond c t e => c.Only constant above ∧ Stmt.AllOnly t ∧ Stmt.AllOnly e
  | .loop c body => c.Only constant above ∧ Stmt.AllOnly body
  | .block body => Stmt.AllOnly body

def Stmt.AllOnly : List Stmt → Prop
  | [] => True
  | s :: ss => s.Only ∧ Stmt.AllOnly ss

end

def Field.Only (f : Field) : Prop := ∀ e ∈ f.init, e.Only constant above

/-- The same of all initial values and bodies of a class. -/
structure Class.Only (c : Class) : Prop where
  fields : ∀ f ∈ c.fields, f.Only constant above
  statics : ∀ f ∈ c.statics, f.Only constant above
  constructors : ∀ k ∈ c.constructors, Stmt.AllOnly constant above k.body
  methods : ∀ m ∈ c.methods, Stmt.AllOnly constant above m.body

variable {constant above}

section Mono

variable {constant' : Constant → Prop} {above' : String → Nat → Prop}

mutual

theorem Expr.Only.mono (constants : ∀ c, constant c → constant' c)
    (calls : ∀ name arity, above name arity → above' name arity) :
    (e : Expr) → e.Only constant above → e.Only constant' above'
  | .const c, h => constants c h
  | .var _, _ | .this, _ | .field _, _ | .static _, _ => trivial
  | .storeVar _ e, h | .storeField _ e, h | .storeStatic _ e, h | .unary _ e, h | .cast _ _ e, h =>
    Expr.Only.mono constants calls e h
  | .binary _ l r, h | .and l r, h | .or l r, h =>
    ⟨Expr.Only.mono constants calls l h.1, Expr.Only.mono constants calls r h.2⟩
  | .conditional c t e, h =>
    ⟨Expr.Only.mono constants calls c h.1, Expr.Only.mono constants calls t h.2.1,
      Expr.Only.mono constants calls e h.2.2⟩
  | .invoke receiver _ args, h =>
    ⟨Expr.Only.mono constants calls receiver h.1, Expr.AllOnly.mono constants calls args h.2⟩
  | .invokeSuper name args, h =>
    ⟨calls name args.length h.1, Expr.AllOnly.mono constants calls args h.2⟩

theorem Expr.AllOnly.mono (constants : ∀ c, constant c → constant' c)
    (calls : ∀ name arity, above name arity → above' name arity) :
    (es : List Expr) → AllOnly constant above es → AllOnly constant' above' es
  | [], _ => trivial
  | e :: es, h => ⟨Expr.Only.mono constants calls e h.1, Expr.AllOnly.mono constants calls es h.2⟩

end

mutual

theorem Stmt.Only.mono (constants : ∀ c, constant c → constant' c)
    (calls : ∀ name arity, above name arity → above' name arity) :
    (s : Stmt) → s.Only constant above → s.Only constant' above'
  | .expr e, h | .throw e, h => Expr.Only.mono constants calls e h
  | .ret _, h => fun e member => Expr.Only.mono constants calls e (h e member)
  | .cond c t e, h =>
    ⟨Expr.Only.mono constants calls c h.1, Stmt.AllOnly.mono constants calls t h.2.1,
      Stmt.AllOnly.mono constants calls e h.2.2⟩
  | .loop c body, h =>
    ⟨Expr.Only.mono constants calls c h.1, Stmt.AllOnly.mono constants calls body h.2⟩
  | .block body, h => Stmt.AllOnly.mono constants calls body h

theorem Stmt.AllOnly.mono (constants : ∀ c, constant c → constant' c)
    (calls : ∀ name arity, above name arity → above' name arity) :
    (ss : List Stmt) → AllOnly constant above ss → AllOnly constant' above' ss
  | [], _ => trivial
  | s :: ss, h => ⟨Stmt.Only.mono constants calls s h.1, Stmt.AllOnly.mono constants calls ss h.2⟩

end

theorem Class.Only.mono (constants : ∀ c, constant c → constant' c)
    (calls : ∀ name arity, above name arity → above' name arity) {c : Class}
    (h : c.Only constant above) : c.Only constant' above' where
  fields f member e init := Expr.Only.mono constants calls e (h.fields f member e init)
  statics f member e init := Expr.Only.mono constants calls e (h.statics f member e init)
  constructors k member := Stmt.AllOnly.mono constants calls k.body (h.constructors k member)
  methods m member := Stmt.AllOnly.mono constants calls m.body (h.methods m member)

end Mono

theorem Stmt.allOnly_append {xs ys : List Stmt} (hx : AllOnly constant above xs)
    (hy : AllOnly constant above ys) : AllOnly constant above (xs ++ ys) := by
  induction xs with
  | nil => exact hy
  | cons x xs ih =>
    rw [AllOnly] at hx
    exact ⟨hx.1, ih hx.2⟩

end Code

namespace Source

variable (p : Literal → Prop)

mutual

/-- All literals of the expression are such. -/
def Expr.Literals : Expr → Prop
  | .literal v _ => p v
  | .name _ _ | .this _ => True
  | .access target _ _ => target.Literals
  | .call target _ args _ => target.Literals ∧ Expr.AllLiterals args
  | .ownCall _ args _ | .superCall _ args _ => Expr.AllLiterals args
  | .unary _ e _ | .cast _ e _ => e.Literals
  | .binary _ l r _ | .logical _ l r _ => l.Literals ∧ r.Literals
  | .assign _ target value _ => target.Literals ∧ value.Literals
  | .conditional c t e _ => c.Literals ∧ t.Literals ∧ e.Literals

def Expr.AllLiterals : List Expr → Prop
  | [] => True
  | e :: es => e.Literals ∧ Expr.AllLiterals es

end

mutual

def Stmt.Literals : Stmt → Prop
  | .block body _ => Stmt.AllLiterals body
  | .empty _ => True
  | .expr e | .throw e _ => e.Literals p
  | .declare _ _ init _ => ∀ e ∈ init, e.Literals p
  | .ret value _ => ∀ e ∈ value, e.Literals p
  | .ifThen c t _ => c.Literals p ∧ t.Literals
  | .ifElse c t e _ => c.Literals p ∧ t.Literals ∧ e.Literals
  | .loop c b _ => c.Literals p ∧ b.Literals

def Stmt.AllLiterals : List Stmt → Prop
  | [] => True
  | s :: ss => s.Literals ∧ Stmt.AllLiterals ss

end

def Member.Literals : Member → Prop
  | .field d => ∀ e ∈ d.init, e.Literals p
  | .method d => Stmt.AllLiterals p d.body.statements
  | .constructor d => Stmt.AllLiterals p d.body.statements

/-- All literals of the unit are such. -/
def CompilationUnit.Literals (unit : CompilationUnit) : Prop :=
  ∀ m ∈ unit.decl.members, m.Literals p

/-! What can be tested of a literal can be tested of all. -/

section

variable [DecidablePred p]

mutual

def Expr.decideLiterals : (e : Expr) → Decidable (e.Literals p)
  | .literal v _ => inferInstanceAs (Decidable (p v))
  | .name _ _ | .this _ => .isTrue trivial
  | .access target _ _ => target.decideLiterals
  | .call target _ args _ =>
    have := target.decideLiterals
    have := Expr.decideAllLiterals args
    inferInstanceAs (Decidable (_ ∧ _))
  | .ownCall _ args _ | .superCall _ args _ => Expr.decideAllLiterals args
  | .unary _ e _ | .cast _ e _ => e.decideLiterals
  | .binary _ l r _ | .logical _ l r _ | .assign _ l r _ =>
    have := l.decideLiterals
    have := r.decideLiterals
    inferInstanceAs (Decidable (_ ∧ _))
  | .conditional c t e _ =>
    have := c.decideLiterals
    have := t.decideLiterals
    have := e.decideLiterals
    inferInstanceAs (Decidable (_ ∧ _ ∧ _))

def Expr.decideAllLiterals : (es : List Expr) → Decidable (AllLiterals p es)
  | [] => .isTrue trivial
  | e :: es =>
    have := e.decideLiterals
    have := Expr.decideAllLiterals es
    inferInstanceAs (Decidable (_ ∧ _))

end

instance (e : Expr) : Decidable (e.Literals p) := e.decideLiterals p

mutual

def Stmt.decideLiterals : (s : Stmt) → Decidable (s.Literals p)
  | .block body _ => Stmt.decideAllLiterals body
  | .empty _ => .isTrue trivial
  | .expr e | .throw e _ => inferInstanceAs (Decidable (e.Literals p))
  | .declare _ _ init _ => inferInstanceAs (Decidable (∀ e ∈ init, e.Literals p))
  | .ret value _ => inferInstanceAs (Decidable (∀ e ∈ value, e.Literals p))
  | .ifThen c t _ | .loop c t _ =>
    have := t.decideLiterals
    inferInstanceAs (Decidable (c.Literals p ∧ _))
  | .ifElse c t e _ =>
    have := t.decideLiterals
    have := e.decideLiterals
    inferInstanceAs (Decidable (c.Literals p ∧ _ ∧ _))

def Stmt.decideAllLiterals : (ss : List Stmt) → Decidable (AllLiterals p ss)
  | [] => .isTrue trivial
  | s :: ss =>
    have := s.decideLiterals
    have := Stmt.decideAllLiterals ss
    inferInstanceAs (Decidable (_ ∧ _))

end

instance (ss : List Stmt) : Decidable (Stmt.AllLiterals p ss) := Stmt.decideAllLiterals p ss

instance : (m : Member) → Decidable (m.Literals p)
  | .field d => inferInstanceAs (Decidable (∀ e ∈ d.init, e.Literals p))
  | .method d => inferInstanceAs (Decidable (Stmt.AllLiterals p d.body.statements))
  | .constructor d => inferInstanceAs (Decidable (Stmt.AllLiterals p d.body.statements))

instance (unit : CompilationUnit) : Decidable (unit.Literals p) :=
  inferInstanceAs (Decidable (∀ m ∈ unit.decl.members, m.Literals p))

end

variable {p}

mutual

theorem Expr.literals_of_all (all : ∀ v, p v) : (e : Expr) → e.Literals p
  | .literal v _ => all v
  | .name _ _ | .this _ => trivial
  | .access target _ _ => Expr.literals_of_all all target
  | .call target _ args _ => ⟨Expr.literals_of_all all target, Expr.allLiterals_of_all all args⟩
  | .ownCall _ args _ | .superCall _ args _ => Expr.allLiterals_of_all all args
  | .unary _ e _ | .cast _ e _ => Expr.literals_of_all all e
  | .binary _ l r _ | .logical _ l r _ => ⟨Expr.literals_of_all all l, Expr.literals_of_all all r⟩
  | .assign _ target value _ =>
    ⟨Expr.literals_of_all all target, Expr.literals_of_all all value⟩
  | .conditional c t e _ =>
    ⟨Expr.literals_of_all all c, Expr.literals_of_all all t, Expr.literals_of_all all e⟩

theorem Expr.allLiterals_of_all (all : ∀ v, p v) : (es : List Expr) → AllLiterals p es
  | [] => trivial
  | e :: es => ⟨Expr.literals_of_all all e, Expr.allLiterals_of_all all es⟩

end

mutual

theorem Stmt.literals_of_all (all : ∀ v, p v) : (s : Stmt) → s.Literals p
  | .block body _ => Stmt.allLiterals_of_all all body
  | .empty _ => trivial
  | .expr e | .throw e _ => Expr.literals_of_all all e
  | .declare _ _ _ _ | .ret _ _ => fun e _ => Expr.literals_of_all all e
  | .ifThen c t _ | .loop c t _ => ⟨Expr.literals_of_all all c, Stmt.literals_of_all all t⟩
  | .ifElse c t e _ =>
    ⟨Expr.literals_of_all all c, Stmt.literals_of_all all t, Stmt.literals_of_all all e⟩

theorem Stmt.allLiterals_of_all (all : ∀ v, p v) : (ss : List Stmt) → AllLiterals p ss
  | [] => trivial
  | s :: ss => ⟨Stmt.literals_of_all all s, Stmt.allLiterals_of_all all ss⟩

end

theorem CompilationUnit.literals_of_all (all : ∀ v, p v) (unit : CompilationUnit) :
    unit.Literals p := by
  rintro (d | d | d) _
  · exact fun e _ => Expr.literals_of_all all e
  · exact Stmt.allLiterals_of_all all _
  · exact Stmt.allLiterals_of_all all _

/-! What holds of all literals may be weakened. -/

variable {q : Literal → Prop}

mutual

theorem Expr.Literals.mono (weaker : ∀ v, p v → q v) : (e : Expr) → e.Literals p → e.Literals q
  | .literal v _, h => weaker v h
  | .name _ _, _ | .this _, _ => trivial
  | .access target _ _, h => Expr.Literals.mono weaker target h
  | .call target _ args _, h =>
    ⟨Expr.Literals.mono weaker target h.1, Expr.AllLiterals.mono weaker args h.2⟩
  | .ownCall _ args _, h | .superCall _ args _, h => Expr.AllLiterals.mono weaker args h
  | .unary _ e _, h | .cast _ e _, h => Expr.Literals.mono weaker e h
  | .binary _ l r _, h | .logical _ l r _, h =>
    ⟨Expr.Literals.mono weaker l h.1, Expr.Literals.mono weaker r h.2⟩
  | .assign _ target value _, h =>
    ⟨Expr.Literals.mono weaker target h.1, Expr.Literals.mono weaker value h.2⟩
  | .conditional c t e _, h =>
    ⟨Expr.Literals.mono weaker c h.1, Expr.Literals.mono weaker t h.2.1,
      Expr.Literals.mono weaker e h.2.2⟩

theorem Expr.AllLiterals.mono (weaker : ∀ v, p v → q v) :
    (es : List Expr) → AllLiterals p es → AllLiterals q es
  | [], _ => trivial
  | e :: es, h => ⟨Expr.Literals.mono weaker e h.1, Expr.AllLiterals.mono weaker es h.2⟩

end

mutual

theorem Stmt.Literals.mono (weaker : ∀ v, p v → q v) : (s : Stmt) → s.Literals p → s.Literals q
  | .block body _, h => Stmt.AllLiterals.mono weaker body h
  | .empty _, _ => trivial
  | .expr e, h | .throw e _, h => Expr.Literals.mono weaker e h
  | .declare _ _ _ _, h | .ret _ _, h => fun e given => Expr.Literals.mono weaker e (h e given)
  | .ifThen c t _, h | .loop c t _, h =>
    ⟨Expr.Literals.mono weaker c h.1, Stmt.Literals.mono weaker t h.2⟩
  | .ifElse c t e _, h =>
    ⟨Expr.Literals.mono weaker c h.1, Stmt.Literals.mono weaker t h.2.1,
      Stmt.Literals.mono weaker e h.2.2⟩

theorem Stmt.AllLiterals.mono (weaker : ∀ v, p v → q v) :
    (ss : List Stmt) → AllLiterals p ss → AllLiterals q ss
  | [], _ => trivial
  | s :: ss, h => ⟨Stmt.Literals.mono weaker s h.1, Stmt.AllLiterals.mono weaker ss h.2⟩

end

theorem CompilationUnit.Literals.mono (weaker : ∀ v, p v → q v) {unit : CompilationUnit}
    (h : unit.Literals p) : unit.Literals q := by
  rintro (d | d | d) member
  · exact fun e given => Expr.Literals.mono weaker e (h _ member e given)
  · exact Stmt.AllLiterals.mono weaker _ (h _ member)
  · exact Stmt.AllLiterals.mono weaker _ (h _ member)

end Source

namespace Check

/-- What the lowering gives, whatever it is started with and whatever it reports. -/
def Lower.Gives {α : Type} (body : Lower α) (P : α → Prop) : Prop := ∀ st, P (body st).1

namespace Lower.Gives

variable {α β : Type} {P : α → Prop} {Q : β → Prop}

theorem pure {a : α} (h : P a) : Gives (pure a) P := fun _ => h

theorem bind {body : Lower α} {next : α → Lower β} (h : Gives body P)
    (hnext : ∀ a, P a → Gives (next a) Q) : Gives (body >>= next) Q := fun st =>
  hnext _ (h st) (body st).2

/-- A first step of which nothing has to be known. -/
theorem after {body : Lower α} {next : α → Lower β} (hnext : ∀ a, Gives (next a) Q) :
    Gives (body >>= next) Q := fun st => hnext _ (body st).2

theorem inScope {body : Lower α} (h : Gives body P) : Gives (inScope body) P :=
  after fun _ => h.bind fun _ ha => after fun _ => pure ha

end Lower.Gives

/-- Whether a call on `super` is answered above the class: by code for a method of this name and
arity, or as every object answers it. -/
def ClassContext.Answers (cx : ClassContext) (name : String) (arity : Nat) : Prop :=
  (∃ m ∈ cx.inheritedMethods, m.name = name ∧ m.method.params.length = arity ∧
      m.method.isAbstract = false) ∨
    (BuiltinMethod.ofAny? name arity).isSome = true

/-- The constants that stand for values that nobody wrote are such. -/
def Defaults (constant : Code.Constant → Prop) : Prop :=
  ∀ t above, (defaultCode t).Only constant above

/-- So are the constants that literals become. -/
def Wrote (constant : Code.Constant → Prop) (v : Source.Literal) : Prop :=
  (lowerLiteral v).1.Only constant fun _ _ => False

section Lowering

open Lower
open Code (Constant)

variable {cx : ClassContext} {constant : Constant → Prop}

/-- The code is made of such constants and of answered calls on `super`. -/
abbrev Composed (cx : ClassContext) (constant : Constant → Prop) (e : Code.Expr) : Prop :=
  e.Only constant cx.Answers

theorem Wrote.composed {v : Source.Literal} (h : Wrote constant v) :
    Composed cx constant (lowerLiteral v).1 := by
  cases v <;> exact h

theorem Composed.promote {e : Code.Expr} (h : Composed cx constant e) (source target : Primitive) :
    Composed cx constant (promote e source target) := by
  unfold Check.promote
  split
  · exact h
  · exact h

theorem Place.composed_load (p : Place) : Composed cx constant p.load := by
  cases p <;> trivial

theorem Place.composed_store (p : Place) {e : Code.Expr} (h : Composed cx constant e) :
    Composed cx constant (p.store e) := by
  cases p <;> exact h

theorem null_composed (defaults : Defaults constant) : Composed cx constant (.const .null) :=
    defaults .object _

theorem fail_composed (defaults : Defaults constant) (cause : Cause) (span : Span) :
    Gives (Lower.fail cause span) fun lowered => Composed cx constant lowered.1 :=
  .after fun _ => .pure (null_composed defaults)

theorem coerce_composed {e : Code.Expr} (h : Composed cx constant e) (source : StaticType)
    (target : TypeRef) (span : Span) :
    Gives (coerce cx e source target span) (Composed cx constant) := by
  obtain ⟨_, _, -, -, -, -, same⟩ | ⟨-, -, same⟩ | ⟨-, ⟨a, b, -, -, same⟩ | ⟨-, same⟩⟩ :=
    coerce_cases cx e source target span
  all_goals rw [same]
  · exact .pure h
  · exact .after fun _ => .pure h
  · exact .pure (h.promote _ _)
  · exact .pure h

theorem asCondition_composed {lowered : Lowered} (h : Composed cx constant lowered.1) (span : Span)
    :
    Gives (asCondition lowered span) (Composed cx constant) := by
  unfold asCondition
  split
  · exact .after fun _ => .pure h
  · exact .pure h

theorem joinBranches_composed {thenBranch elseBranch : Lowered}
    (ht : Composed cx constant thenBranch.1) (he : Composed cx constant elseBranch.1)
    (span : Span) :
    Gives (joinBranches thenBranch elseBranch span) fun joined =>
      Composed cx constant joined.1 ∧ Composed cx constant joined.2.1 := by
  unfold joinBranches
  dsimp only
  split
  · exact .pure ⟨ht, he⟩
  split
  · exact .pure ⟨ht, he⟩
  split
  · exact .pure ⟨ht.promote _ _, he.promote _ _⟩
  split
  · exact .pure ⟨ht, he⟩
  split
  · exact .pure ⟨ht, he⟩
  split
  · exact .after fun _ => .pure ⟨ht, he⟩
  · exact .pure ⟨ht, he⟩

/-- Arguments that are made of such constants and calls. -/
def AllComposed (cx : ClassContext) (constant : Constant → Prop) (args : List Argument) : Prop :=
  ∀ a ∈ args, Composed cx constant a.code

/-- Arguments keep their number where they are fitted to parameters. -/
theorem coerceArgs_composed {args : List Argument} (h : AllComposed cx constant args)
    (params : List TypeRef) :
    Gives (coerceArgs cx params args) fun codes =>
      codes.length = args.length ∧ Code.Expr.AllOnly constant cx.Answers codes := by
  induction args generalizing params with
  | nil =>
    have nothing : coerceArgs cx params [] = pure [] := by cases params <;> rfl
    rw [nothing]
    exact .pure ⟨rfl, trivial⟩
  | cons a args ih =>
    have rest := ih fun b hb => h b (List.mem_cons_of_mem _ hb)
    have first := h a List.mem_cons_self
    cases params with
    | nil =>
      have more : Gives (do return a.code :: (← coerceArgs cx [] args)) fun codes =>
          codes.length = (a :: args).length ∧ Code.Expr.AllOnly constant cx.Answers codes :=
        (rest []).bind fun codes hcodes =>
          .pure ⟨congrArg (· + 1) hcodes.1, first, hcodes.2⟩
      rw [coerceArgs]
      split
      · exact .after fun _ => more
      · exact more
    | cons p params =>
      rw [coerceArgs]
      refine (coerce_composed first a.type p a.span).bind fun code hcode => ?_
      refine (rest params).bind fun codes hcodes => .pure ?_
      exact ⟨congrArg (· + 1) hcodes.1, hcode, hcodes.2⟩

theorem lowerUnary_composed (defaults : Defaults constant) {operand : Lowered}
    (h : Composed cx constant operand.1) (op : SignOp)
    (span : Span) :
    Gives (lowerUnary op operand span) fun lowered => Composed cx constant lowered.1 := by
  unfold lowerUnary
  dsimp only
  split
  · exact .pure (null_composed defaults)
  cases op with
  | not =>
    dsimp only
    split
    · exact fail_composed defaults _ _
    · exact .pure h
  | negate =>
    dsimp only
    split
    · exact fail_composed defaults _ _
    · exact .pure (h.promote _ _)
  | plus =>
    dsimp only
    split
    · exact fail_composed defaults _ _
    · exact .pure (h.promote _ _)

theorem lowerBinary_composed (defaults : Defaults constant) {left right : Lowered}
    (hl : Composed cx constant left.1)
    (hr : Composed cx constant right.1) (op : BinaryOp) (span : Span) :
    Gives (lowerBinary op left right span) fun lowered => Composed cx constant lowered.1 := by
  unfold lowerBinary
  dsimp only
  split
  · exact .pure (null_composed defaults)
  split
  · split
    · exact fail_composed defaults _ _
    · exact .pure ⟨hl, hr⟩
  split
  · exact .pure ⟨hl.promote _ _, hr.promote _ _⟩
  split
  · split
    · exact .pure ⟨hl, hr⟩
    · exact fail_composed defaults _ _
  · exact fail_composed defaults _ _

theorem lowerCast_composed (defaults : Defaults constant) {operand : Lowered}
    (h : Composed cx constant operand.1) (target : TypeRef)
    (span operandSpan : Span) :
    Gives (lowerCast target operand span operandSpan) fun lowered =>
      Composed cx constant lowered.1 := by
  unfold lowerCast
  dsimp only
  split
  · exact fail_composed defaults _ _
  · split
    · exact fail_composed defaults _ _
    · exact .pure h
  · split
    · exact .pure h
    · exact fail_composed defaults _ _
  · exact fail_composed defaults _ _
  · exact .pure h

theorem lowerCall_composed (defaults : Defaults constant) {receiver : Lowered}
    {args : List Argument}
    (hr : Composed cx constant receiver.1) (h : AllComposed cx constant args) (name : String)
    (span : Span) :
    Gives (lowerCall cx receiver name args span) fun lowered => Composed cx constant lowered.1 := by
  unfold lowerCall
  split
  · exact .pure (null_composed defaults)
  · split
    · exact fail_composed defaults _ _
    · exact (coerceArgs_composed h _).bind fun codes hcodes => .pure ⟨hr, hcodes.2⟩
  · exact fail_composed defaults _ _

/-- Only a method with code is selected, or one that every object has. -/
theorem lowerSuperCall_composed (defaults : Defaults constant) {args : List Argument}
    (h : AllComposed cx constant args)
    (name : String) (span : Span) :
    Gives (lowerSuperCall cx name args span) fun lowered => Composed cx constant lowered.1 := by
  unfold lowerSuperCall
  split
  · rename_i m selected
    have accepted := List.find?_some selected
    simp only [accepts, Bool.and_eq_true, beq_iff_eq] at accepted
    split
    · exact fail_composed defaults _ _
    · rename_i concrete
      refine (coerceArgs_composed h _).bind fun codes hcodes => .pure ⟨.inl ⟨m, ?_⟩, hcodes.2⟩
      exact ⟨List.mem_of_find?_eq_some selected, accepted.1.1,
        accepted.2.1.trans hcodes.1.symm, by simpa using concrete⟩
  · split
    · exact fail_composed defaults _ _
    · rename_i b found
      refine (coerceArgs_composed h _).bind fun codes hcodes => .pure ⟨.inr ?_, hcodes.2⟩
      rw [hcodes.1, found]
      rfl

theorem lowerThis_composed (defaults : Defaults constant) (kind : BodyKind) (cause : Cause)
    (span : Span) :
    Gives (lowerThis cx kind cause span) fun lowered => Composed cx constant lowered.1 := by
  unfold lowerThis
  split
  · exact fail_composed defaults _ _
  · exact .pure trivial

theorem lowerPlace_composed (defaults : Defaults constant) (found : Option Place) : Composed cx
    constant (lowerPlace found).1 := by
  cases found with
  | none => exact null_composed defaults
  | some place => exact place.composed_load

theorem lowerStore_composed (defaults : Defaults constant) {value : Lowered}
    (h : Composed cx constant value.1) (op : Option BinaryOp)
    (place : Place) (span valueSpan : Span) :
    Gives (lowerStore cx op place value span valueSpan) fun lowered =>
      Composed cx constant lowered.1 := by
  unfold lowerStore
  dsimp only
  cases op with
  | none =>
    exact (coerce_composed h _ _ _).bind fun stored hstored => .pure (place.composed_store hstored)
  | some op =>
    have load : Composed cx constant place.load := place.composed_load
    refine (lowerBinary_composed defaults load h op span).bind fun combined hcode => ?_
    split
    · exact .pure (place.composed_store (Composed.promote hcode _ _))
    · exact (coerce_composed hcode _ _ _).bind fun stored hstored =>
        .pure (place.composed_store hstored)

/-! ### Expressions -/

mutual

theorem lowerExpr_composed (defaults : Defaults constant) (kind : BodyKind) : (e : Source.Expr) →
    e.Literals (Wrote constant) →
    Gives (lowerExpr cx kind e) fun lowered => Composed cx constant lowered.1
  | .literal v _, h => by
    rw [lowerExpr]
    exact .pure (Wrote.composed h)
  | .name name span, _ => by
    rw [lowerExpr]
    exact .after fun found => .pure (lowerPlace_composed defaults found)
  | .this span, _ => by
    rw [lowerExpr]
    exact lowerThis_composed defaults kind _ span
  | .access target name span, _ => by
    rw [lowerExpr]
    exact .after fun found => .pure (lowerPlace_composed defaults found)
  | .call target name args span, h => by
    rw [lowerExpr]
    refine (lowerExpr_composed defaults kind target h.1).bind fun receiver hreceiver => ?_
    refine (lowerArgs_composed defaults kind args h.2).bind fun args hargs => ?_
    exact lowerCall_composed defaults hreceiver hargs name span
  | .ownCall name args span, h => by
    rw [lowerExpr]
    refine (lowerThis_composed defaults kind _ span).bind fun receiver hreceiver => ?_
    split
    · exact .pure (null_composed defaults)
    · refine (lowerArgs_composed defaults kind args h).bind fun args hargs => ?_
      exact lowerCall_composed defaults hreceiver hargs name span
  | .superCall name args span, h => by
    rw [lowerExpr]
    split
    · exact fail_composed defaults _ _
    · refine (lowerArgs_composed defaults kind args h).bind fun args hargs => ?_
      exact lowerSuperCall_composed defaults hargs name span
  | .unary op e span, h => by
    rw [lowerExpr]
    refine (lowerExpr_composed defaults kind e h).bind fun operand hoperand => ?_
    exact lowerUnary_composed defaults hoperand op span
  | .binary op l r span, h => by
    rw [lowerExpr]
    refine (lowerExpr_composed defaults kind l h.1).bind fun left hleft => ?_
    refine (lowerExpr_composed defaults kind r h.2).bind fun right hright => ?_
    exact lowerBinary_composed defaults hleft hright op span
  | .logical op l r span, h => by
    rw [lowerExpr]
    refine (lowerExpr_composed defaults kind l h.1).bind fun left hleft => ?_
    refine (asCondition_composed hleft _).bind fun leftCode hleftCode => ?_
    refine (lowerExpr_composed defaults kind r h.2).bind fun right hright => ?_
    refine (asCondition_composed hright _).bind fun rightCode hrightCode => ?_
    cases op with
    | and => exact .pure ⟨hleftCode, hrightCode⟩
    | or => exact .pure ⟨hleftCode, hrightCode⟩
  | .assign op target value span, h => by
    rw [lowerExpr]
    refine .after fun place => ?_
    refine (lowerExpr_composed defaults kind value h.2).bind fun lowered hlowered => ?_
    cases place with
    | none => exact .pure (null_composed defaults)
    | some place => exact lowerStore_composed defaults hlowered op place span _
  | .conditional c t e _, h => by
    rw [lowerExpr]
    refine (lowerExpr_composed defaults kind c h.1).bind fun condition hcondition => ?_
    refine (asCondition_composed hcondition _).bind fun code hcode => ?_
    refine (lowerExpr_composed defaults kind t h.2.1).bind fun thenBranch hthen => ?_
    refine (lowerExpr_composed defaults kind e h.2.2).bind fun elseBranch helse => ?_
    refine (joinBranches_composed hthen helse _).bind fun joined hjoined => ?_
    exact .pure ⟨hcode, hjoined.1, hjoined.2⟩
  | .cast type e span, h => by
    rw [lowerExpr]
    split
    · exact .after fun _ => .after fun _ => .pure (null_composed defaults)
    · refine (lowerExpr_composed defaults kind e h).bind fun operand hoperand => ?_
      exact lowerCast_composed defaults hoperand _ span _

theorem lowerArgs_composed (defaults : Defaults constant) (kind : BodyKind) :
    (es : List Source.Expr) →
    Source.Expr.AllLiterals (Wrote constant) es →
    Gives (lowerArgs cx kind es) (AllComposed cx constant)
  | [], _ => by
    rw [lowerArgs]
    exact .pure fun a member => nomatch member
  | e :: es, h => by
    rw [lowerArgs]
    refine (lowerExpr_composed defaults kind e h.1).bind fun lowered hlowered => ?_
    refine (lowerArgs_composed defaults kind es h.2).bind fun args hargs => .pure ?_
    intro a member
    rcases List.mem_cons.1 member with rfl | member
    · exact hlowered
    · exact hargs a member

end

/-! ### Statements -/

theorem lowerAs_composed (defaults : Defaults constant) (kind : BodyKind) {e : Source.Expr}
    (h : e.Literals (Wrote constant))
    (target : TypeRef) : Gives (lowerAs cx kind e target) (Composed cx constant) :=
  (lowerExpr_composed defaults kind e h).bind fun _ hlowered => coerce_composed hlowered _ _ _

theorem lowerCondition_composed (defaults : Defaults constant) (kind : BodyKind) {e : Source.Expr}
    (h : e.Literals (Wrote constant)) : Gives (lowerCondition cx kind e) (Composed cx constant) :=
  (lowerExpr_composed defaults kind e h).bind fun _ hlowered => asCondition_composed hlowered _

theorem lowerReturn_composed (defaults : Defaults constant) (kind : BodyKind)
    {value : Option Source.Expr}
    (h : ∀ e ∈ value, e.Literals (Wrote constant)) (span : Span) :
    Gives (lowerReturn cx kind value span) fun value => ∀ e ∈ value, Composed cx constant e := by
  have nothing : ∀ e ∈ (none : Option Code.Expr), Composed cx constant e := fun _ => nofun
  unfold lowerReturn
  split
  · exact .after fun _ => .pure nothing
  · exact .pure nothing
  · exact .after fun _ => .pure nothing
  · refine (lowerAs_composed defaults _ (h _ rfl) _).bind fun code hcode => .pure ?_
    rintro e ⟨⟩
    exact hcode
  · exact .after fun _ => .pure nothing
  · exact .pure nothing

mutual

theorem lowerStmt_composed (defaults : Defaults constant) (kind : BodyKind) : (s : Source.Stmt) →
    s.Literals (Wrote constant) →
    Gives (lowerStmt cx kind s) (Code.Stmt.AllOnly constant cx.Answers)
  | .block body _, h => by
    rw [lowerStmt]
    refine (lowerStmts_composed defaults kind body h).inScope.bind fun code hcode => ?_
    exact .pure ⟨hcode, trivial⟩
  | .empty _, _ => by
    rw [lowerStmt]
    exact .pure trivial
  | .expr e, h => by
    rw [lowerStmt]
    exact (lowerExpr_composed defaults kind e h).bind fun _ hlowered => .pure ⟨hlowered, trivial⟩
  | .declare type name init span, h => by
    rw [lowerStmt]
    refine .after fun type => ?_
    have stored : ∀ {value : Lower Code.Expr}, Gives value (Composed cx constant) →
        Gives (do
          let code ← value
          let slot ← declare name type span
          return [.expr (.storeVar slot code)]) (Code.Stmt.AllOnly constant cx.Answers) :=
      fun value => value.bind fun code hcode => .after fun _ => .pure ⟨hcode, trivial⟩
    cases init with
    | none => exact stored (.pure (defaults type _))
    | some e => exact stored (lowerAs_composed defaults kind (h e rfl) type)
  | .ret value span, h => by
    rw [lowerStmt]
    exact (lowerReturn_composed defaults kind h span).bind fun code hcode => .pure ⟨hcode, trivial⟩
  | .ifThen c t _, h => by
    rw [lowerStmt]
    refine (lowerCondition_composed defaults kind h.1).bind fun condition hcondition => ?_
    refine (lowerStmt_composed defaults kind t h.2).inScope.bind fun thenBranch hthen => .pure ?_
    exact ⟨⟨hcondition, hthen, trivial⟩, trivial⟩
  | .ifElse c t e _, h => by
    rw [lowerStmt]
    refine (lowerCondition_composed defaults kind h.1).bind fun condition hcondition => ?_
    refine (lowerStmt_composed defaults kind t h.2.1).inScope.bind fun thenBranch hthen => ?_
    refine (lowerStmt_composed defaults kind e h.2.2).inScope.bind fun elseBranch helse => .pure ?_
    exact ⟨⟨hcondition, hthen, helse⟩, trivial⟩
  | .loop c b _, h => by
    rw [lowerStmt]
    refine (lowerCondition_composed defaults kind h.1).bind fun condition hcondition => ?_
    refine (lowerStmt_composed defaults kind b h.2).inScope.bind fun body hbody => .pure ?_
    exact ⟨⟨hcondition, hbody⟩, trivial⟩
  | .throw e span, h => by
    rw [lowerStmt]
    refine (lowerExpr_composed defaults kind e h).bind fun lowered hlowered => ?_
    dsimp only
    split
    · exact .after fun _ => .pure ⟨hlowered, trivial⟩
    · exact .pure ⟨hlowered, trivial⟩

theorem lowerStmts_composed (defaults : Defaults constant) (kind : BodyKind) :
    (ss : List Source.Stmt) →
    Source.Stmt.AllLiterals (Wrote constant) ss →
    Gives (lowerStmts cx kind ss) (Code.Stmt.AllOnly constant cx.Answers)
  | [], _ => by
    rw [lowerStmts]
    exact .pure trivial
  | s :: ss, h => by
    rw [lowerStmts]
    refine (lowerStmt_composed defaults kind s h.1).bind fun code hcode => ?_
    refine (lowerStmts_composed defaults kind ss h.2).bind fun rest hrest => .pure ?_
    exact Code.Stmt.allOnly_append hcode hrest

end

/-! ### Members and classes -/

theorem compileField_composed (defaults : Defaults constant) {decl : Source.FieldDecl}
    (h : (Source.Member.field decl).Literals (Wrote constant)) (info : FieldInfo) :
    (compileField cx decl info).1.Only constant cx.Answers := by
  unfold compileField
  dsimp only
  split
  · exact fun _ => nofun
  · rename_i e init
    rintro code ⟨⟩
    exact lowerAs_composed defaults _ (h e init) info.type {}

theorem compileMethod_composed (defaults : Defaults constant) {decl : Source.MethodDecl}
    (h : (Source.Member.method decl).Literals (Wrote constant)) (info : OwnedMethod) :
    Code.Stmt.AllOnly constant cx.Answers (compileMethod cx decl info).1.body := by
  have body : Gives (inScope (lowerStmts cx (.method info.method.returnType)
      decl.body.statements)) (Code.Stmt.AllOnly constant cx.Answers) :=
    (lowerStmts_composed defaults _ _ h).inScope
  exact Gives.after (fun _ => body) {}

theorem compileConstructor_composed (defaults : Defaults constant)
    {decl : Source.ConstructorDecl}
    (h : (Source.Member.constructor decl).Literals (Wrote constant)) (params : List TypeRef) :
    Code.Stmt.AllOnly constant cx.Answers (compileConstructor cx decl params).1.body := by
  have body : Gives (inScope (lowerStmts cx .constructor decl.body.statements))
      (Code.Stmt.AllOnly constant cx.Answers) :=
    (lowerStmts_composed defaults _ _ h).inScope
  exact Gives.after (fun _ => body) {}

end Lowering

/-- The member of the source that a declared one is. -/
def DeclaredMember.source : DeclaredMember → Source.Member
  | .field decl _ => .field decl
  | .method decl _ => .method decl
  | .constructor decl _ => .constructor decl

theorem declareMember_source (scope : TypeScope) (className : String)
    (before : List DeclaredMember) (m : Source.Member) :
    (declareMember scope className before m).1.source = m := by
  cases m <;> rfl

theorem declareMembers_source (scope : TypeScope) (className : String)
    (members : List Source.Member) :
    (declareMembers scope className members).1.map (·.source) = members := by
  induction members using List.reverseRecOn with
  | nil => rfl
  | append_singleton ms m ih =>
    rw [declareMembers_concat, List.map_append, ih, List.map_singleton, declareMember_source]

/-- The same of a compiled member. -/
def CompiledMember.Only (constant : Code.Constant → Prop) (above : String → Nat → Prop) :
    CompiledMember → Prop
  | .field _ code => code.Only constant above
  | .constructor code => Code.Stmt.AllOnly constant above code.body
  | .method code => Code.Stmt.AllOnly constant above code.body

theorem compileMember_composed {cx : ClassContext} {constant : Code.Constant → Prop}
    (defaults : Defaults constant) {m : DeclaredMember}
    (h : m.source.Literals (Wrote constant)) :
    (compileMember cx m).1.Only constant cx.Answers := by
  cases m with
  | field decl info => exact compileField_composed defaults h info
  | method decl info => exact compileMethod_composed defaults h info
  | constructor decl params => exact compileConstructor_composed defaults h params

/-- A unit that compiles has code of such constants as its literals become, and every call on
`super` in it is answered above the class. -/
theorem Accepted.only {table : TypeTable} {unit : Source.CompilationUnit} {code : Code.Class}
    (accepted : Accepted table unit code) {constant : Code.Constant → Prop}
    (defaults : Defaults constant) (literals : unit.Literals (Wrote constant)) :
    code.Only constant (contextOf table unit).Answers := by
  have written : ∀ m ∈ (contextOf table unit).members, m.source.Literals (Wrote constant) := by
    intro m member
    refine literals m.source ?_
    rw [← declareMembers_source (contextOf table unit).scope unit.decl.name unit.decl.members]
    exact List.mem_map_of_mem member
  have compiled : ∀ c ∈ (contextOf table unit).members.map
      fun m => (compileMember (contextOf table unit) m).1,
      c.Only constant (contextOf table unit).Answers := by
    intro c member
    obtain ⟨m, inMembers, rfl⟩ := List.mem_map.1 member
    exact compileMember_composed defaults (written m inMembers)
  rw [accepted.assembled]
  constructor
  · intro f member
    obtain ⟨c, inCompiled, isField⟩ := List.mem_filterMap.1 member
    rcases c with ⟨_ | _, code⟩ | code | code <;> cases isField
    exact compiled _ inCompiled
  · intro f member
    obtain ⟨c, inCompiled, isField⟩ := List.mem_filterMap.1 member
    rcases c with ⟨_ | _, code⟩ | code | code <;> cases isField
    exact compiled _ inCompiled
  · intro k member
    dsimp only [assemble] at member
    split at member
    · rw [List.mem_singleton.1 member]
      trivial
    · obtain ⟨c, inCompiled, isConstructor⟩ := List.mem_filterMap.1 member
      cases c <;> cases isConstructor
      exact compiled _ inCompiled
  · intro m member
    obtain ⟨c, inCompiled, isMethod⟩ := List.mem_filterMap.1 member
    cases c <;> cases isMethod
    exact compiled _ inCompiled

/-- Every call on `super` in a unit that compiles is answered above the class. -/
theorem Accepted.only_answers {table : TypeTable} {unit : Source.CompilationUnit}
    {code : Code.Class} (accepted : Accepted table unit code) :
    code.Only (fun _ => True) (contextOf table unit).Answers := by
  refine accepted.only (fun t above => ?_) (Source.CompilationUnit.literals_of_all ?_ unit)
  · unfold defaultCode
    split <;> trivial
  · intro v
    cases v <;> trivial

end Check

end Classwright

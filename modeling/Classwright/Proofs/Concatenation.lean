import Classwright.Machine.Invoke
import Classwright.Proofs.Conformance
import Classwright.Proofs.Contents
import Classwright.Proofs.Ensuring

/-!
# Sums of texts

Checking takes a sum for a text if the static type of an operand is that of texts; running joins the
texts of the operands if one of them is a text. The two part where operands of that type are null:
the sum of such an operand and of anything but a text fails, although it has been taken for a text.
-/

namespace Classwright

open Check Lower

/-! ### What the operands say -/

/-- How a value is put into a text, from one store to another: an object is asked for its text,
which may come to a stop. -/
inductive Spells (call : Invoke) : Value → Store → Except Stop String → Store → Prop
  | plain {v : Value} {s : Store} : v.asObject? = none → Spells call v s (.ok v.text) s
  | told {o : Object} {s t : Store} {w : Value} :
      call (.object o) "toString" [] s = (.ok w, t) → Spells call (.object o) s (.ok w.text) t
  | stopped {o : Object} {s t : Store} {stop : Stop} :
      call (.object o) "toString" [] s = (.error stop, t) →
      Spells call (.object o) s (.error stop) t

/-- How two values are joined: the text of the one and then the text of the other, unless an object
does not tell its text. -/
inductive Joins (call : Invoke) (a b : Value) (s : Store) : Except Stop Value → Store → Prop
  | left {t : Store} {stop : Stop} :
      Spells call a s (.error stop) t → Joins call a b s (.error stop) t
  | right {t u : Store} {x : String} {stop : Stop} : Spells call a s (.ok x) t →
      Spells call b t (.error stop) u → Joins call a b s (.error stop) u
  | joined {t u : Store} {x y : String} : Spells call a s (.ok x) t → Spells call b t (.ok y) u →
      Joins call a b s (.ok (.str (x ++ y))) u

section

variable {call : Invoke} {a b v : Value} {s : Store}

theorem spells_textOf (call : Invoke) (v : Value) (s : Store) :
    Spells call v s (textOf call v s).1 (textOf call v s).2 := by
  cases v with
  | object o =>
    cases ran : call (.object o) "toString" [] s with
    | mk result t =>
      cases result with
      | error stop =>
        rw [textOf, Run.bind_stop ran]
        exact .stopped ran
      | ok w =>
        rw [textOf, Run.bind_value ran]
        have told := Spells.told ran
        cases w <;> exact told
  | _ => exact .plain rfl

/-- A sum with a text joins the texts of both operands. -/
theorem binary_joins (isText : (isText a || isText b) = true) :
    Joins call a b s (binary call .add a b s).1 (binary call .add a b s).2 := by
  unfold binary
  rw [if_pos (by simp [isText])]
  have left := spells_textOf call a s
  cases first : textOf call a s with
  | mk result t =>
    rw [first] at left
    cases result with
    | error stop =>
      rw [Run.bind_stop first]
      exact .left left
    | ok x =>
      rw [Run.bind_value first]
      have right := spells_textOf call b t
      cases second : textOf call b t with
      | mk result u =>
        rw [second] at right
        cases result with
        | error stop =>
          rw [Run.bind_stop second]
          exact .right left right
        | ok y =>
          rw [Run.bind_value second]
          exact .joined left right

/-- A sum without a text is one of numbers; all else is refused. -/
theorem binary_refuses (noText : (isText a || isText b) = false)
    (noNumber : a.primitive? = none ∨ b.primitive? = none) :
    binary call .add a b s = (.error (.failed (Arithmetic.badOperands .add a b)), s) := by
  have refused : Arithmetic.promote a b = none := by
    rcases noNumber with none_ | none_
    · simp [Arithmetic.promote, Arithmetic.numericKind?, none_]
    · simp [Arithmetic.promote, Arithmetic.numericKind?, none_]
  unfold binary
  rw [if_neg (by simp [noText])]
  unfold Arithmetic.binary
  rw [refused]
  rfl

end

/-! ### What the checker knows -/

namespace Check

/-- Whether an expression of this static type may have the value: it is what a parameter of the type
takes. -/
def StaticType.Admits (tables : Tables) : StaticType → Value → Prop
  | null, v => v = .null
  | primitive kind, v => (v.coerceTo tables (.primitive kind)).isSome = true
  | ref t, v => (v.coerceTo tables t).isSome = true
  | void, _ | error, _ => True

/-- What is of a static type, it admits. -/
theorem StaticType.Holds.admits {tables : Tables} {type : StaticType} {v : Value}
    (holds : type.Holds tables v) : type.Admits tables v := by
  cases type with
  | void | error => trivial
  | null => exact holds
  | primitive kind =>
    exact Value.coerceTo_isSome_of_isInstanceOf ((Value.isInstanceOf_primitive kind v).2 holds)
  | ref t => exact Value.coerceTo_isSome_of_isInstanceOf holds

/-- A value of the type of texts is no number. -/
theorem StaticType.Admits.primitive?_of_string {tables : Tables} {v : Value}
    (admits : StaticType.string.Admits tables v) : v.primitive? = none := by
  cases v with
  | null | str | object | type | method | handler | array => rfl
  | _ => cases admits

variable {left right : Lowered} {span : Span} {st : BodyState}

/-- Without an operand of the type of texts, no sum is taken for a text. -/
theorem lowerBinary_number (noString : ¬ (left.2.isString = true ∨ right.2.isString = true)) :
    Gives (lowerBinary .add left right span) fun lowered => lowered.2 ≠ .string := by
  unfold lowerBinary
  dsimp only
  split
  · exact .pure nofun
  rw [if_neg fun string => noString string.2]
  split
  · exact .pure nofun
  · rw [if_neg (by decide)]
    exact .after fun _ => .pure nofun

theorem lowerBinary_string (isString : (lowerBinary .add left right span st).1.2 = .string) :
    (left.2 = .string ∨ right.2 = .string) ∧
      lowerBinary .add left right span st = ((.binary .add left.1 right.1, .string), st) := by
  by_cases string : left.2.isString = true ∨ right.2.isString = true
  · refine ⟨string.imp beq_iff_eq.1 beq_iff_eq.1, ?_⟩
    unfold lowerBinary at isString ⊢
    dsimp only at isString ⊢
    by_cases reported : left.2 = .error ∨ right.2 = .error
    · rw [if_pos reported] at isString
      cases isString
    rw [if_neg reported, if_pos ⟨rfl, string⟩] at isString ⊢
    by_cases void : left.2 = .void ∨ right.2 = .void
    · rw [if_pos void] at isString
      cases isString
    · rw [if_neg void]
      rfl
  · exact absurd isString (lowerBinary_number string st)

theorem Lower.bind_apply {α β : Type} (body : Lower α) (next : α → Lower β) (st : BodyState) :
    (body >>= next) st = next (body st).1 (body st).2 := rfl

/-- No reference is promoted where it is passed. -/
theorem coerce_reference (cx : ClassContext) (e : Code.Expr) (t target : TypeRef) (span : Span) :
    Gives (coerce cx e (.ref t) target span) fun code => code = e := by
  unfold coerce
  dsimp only
  split
  · exact .after fun _ => .pure rfl
  · exact .pure rfl

/-- What a compound assignment stores is the sum of what was there and the operand. -/
theorem lowerStore_string {cx : ClassContext} {place : Place} {valueSpan : Span}
    (isString : (lowerBinary .add (place.load, .of place.type) right span st).1.2 = .string) :
    (lowerStore cx (some .add) place right span valueSpan st).1
      = (place.store (.binary .add place.load right.1), .of place.type) := by
  obtain ⟨_, lowered⟩ := lowerBinary_string isString
  unfold lowerStore
  dsimp only
  rw [Lower.bind_apply, lowered]
  change (place.store (coerce cx _ (.ref .string) place.type span st).1, _) = _
  rw [coerce_reference cx _ .string place.type span st]

end Check

/-! ### Checked sums when they are run -/

section

variable {calls : Calls} {frame : Frame} {l r : Code.Expr} {locals locals₁ locals₂ : List Value}
  {s s₁ s₂ t : Store} {a b : Value}

/-- An operator is applied once both operands have their values, and leaves the variables alone. -/
theorem eval_binary (op : BinaryOp) (left : eval calls frame l locals s = (.ok (a, locals₁), s₁))
    (right : eval calls frame r locals₁ s₁ = (.ok (b, locals₂), s₂)) {ended : Except Stop Value}
    (applied : binary calls.invoke op a b s₂ = (ended, t)) :
    eval calls frame (.binary op l r) locals s = (ended.map (·, locals₂), t) := by
  rw [eval, Body.bind_value left, Body.bind_value right]
  change (binary calls.invoke op a b >>= fun v => pure (v, locals₂) : Run (Value × List Value)) s₂
    = _
  cases ended with
  | error stop => exact Run.bind_stop applied
  | ok v => exact Run.bind_value applied

end

/-- A sum that is taken for a text is run as the sum of its operands, and so is one that a compound
assignment stores. Whatever values the static types of the operands admit: where one of them is a
text, both are joined, unless an object comes to a stop when it is asked for its text; where none
is, the sum is refused. -/
theorem sum_of_texts (left right : Lowered) (span : Span) (st : BodyState)
    (isString : (lowerBinary .add left right span st).1.2 = .string) :
    lowerBinary .add left right span st = ((.binary .add left.1 right.1, .string), st) ∧
    (∀ (cx : ClassContext) (place : Place) (valueSpan : Span), left = (place.load, .of place.type) →
      (lowerStore cx (some .add) place right span valueSpan st).1
        = (place.store (.binary .add left.1 right.1), .of place.type)) ∧
    ∀ (tables : Tables) (calls : Calls) (frame : Frame) (locals locals₁ locals₂ : List Value)
      (s s₁ s₂ : Store) (a b : Value),
      eval calls frame left.1 locals s = (.ok (a, locals₁), s₁) → left.2.Admits tables a →
      eval calls frame right.1 locals₁ s₁ = (.ok (b, locals₂), s₂) → right.2.Admits tables b →
      ((isText a || isText b) = true → ∃ ended t, Joins calls.invoke a b s₂ ended t ∧
        eval calls frame (.binary .add left.1 right.1) locals s = (ended.map (·, locals₂), t)) ∧
      ((isText a || isText b) = false → eval calls frame (.binary .add left.1 right.1) locals s
        = (.error (.failed (Arithmetic.badOperands .add a b)), s₂)) := by
  obtain ⟨string, lowered⟩ := lowerBinary_string isString
  refine ⟨lowered, ?_, ?_⟩
  · rintro cx place valueSpan rfl
    exact lowerStore_string isString
  · intro tables calls frame locals locals₁ locals₂ s s₁ s₂ a b left_ admitsLeft right_ admitsRight
    refine ⟨fun text => ?_, fun noText => ?_⟩
    · exact ⟨_, _, binary_joins text, eval_binary .add left_ right_ rfl⟩
    · have noNumber : a.primitive? = none ∨ b.primitive? = none := by
        refine string.imp (fun same => ?_) fun same => ?_
        · exact StaticType.Admits.primitive?_of_string (same ▸ admitsLeft)
        · exact StaticType.Admits.primitive?_of_string (same ▸ admitsRight)
      exact eval_binary .add left_ right_ (binary_refuses noText noNumber)

namespace Sample

/-- A variable of the type of texts. -/
def label : Lowered := ((Place.var 0 .string).load, .of .string)

def one : Lowered := lowerLiteral (.int 1)

def mark : Lowered := lowerLiteral (.string "!")

/-- A body of a class without members. -/
def plainFrame : Frame where
  this? := none
  cls := ⟨0, ⟨Code.formatVersion, "Plain", Builtin.object, [], [], [], [], []⟩, 0, 64⟩

/-- The sum of a variable that holds null and of a number is taken for a text, and is no text. -/
theorem null_not_joined :
    (lowerBinary .add label one ⟨0, 0, 1, 1⟩ {}).1 = (.binary .add label.1 one.1, .string) ∧
    eval (.within unlimited) plainFrame label.1 [.null] {} = (.ok (.null, [.null]), {}) ∧
    label.2.Admits (fun _ => {}) .null ∧
    eval (.within unlimited) plainFrame one.1 [.null] {} = (.ok (.int 1, [.null]), {}) ∧
    one.2.Admits (fun _ => {}) (.int 1) ∧
    ¬ ∃ ended t, Joins (Calls.within unlimited).invoke .null (.int 1) {} ended t ∧
      eval (.within unlimited) plainFrame (.binary .add label.1 one.1) [.null] {}
        = (ended.map (·, [.null]), t) := by
  refine ⟨rfl, rfl, rfl, rfl, rfl, ?_⟩
  rintro ⟨ended, t, joins, ran⟩
  have refused : (eval (.within unlimited) plainFrame (.binary .add label.1 one.1) [.null] {}).1
      = .error (.failed (Arithmetic.badOperands .add .null (.int 1))) := rfl
  rw [ran] at refused
  cases joins with
  | left spells => cases spells
  | right _ spells => cases spells
  | joined => cases refused

/-- The sum of such a variable and of a text is a text. -/
theorem null_joined :
    (lowerBinary .add label mark ⟨0, 0, 1, 1⟩ {}).1.2 = .string ∧
    (∃ ended t, Joins (Calls.within unlimited).invoke .null (.str "!") {} ended t ∧
      eval (.within unlimited) plainFrame (.binary .add label.1 mark.1) [.null] {}
        = (ended.map (·, [.null]), t)) ∧
    eval (.within unlimited) plainFrame (.binary .add label.1 mark.1) [.null] {}
      = (.ok (.str "null!", [.null]), {}) := by
  have runs := (sum_of_texts label mark ⟨0, 0, 1, 1⟩ {} rfl).2.2 (fun _ => {}) (.within unlimited)
    plainFrame [.null] [.null] [.null] {} {} {} .null (.str "!") rfl rfl rfl rfl
  exact ⟨rfl, runs.1 rfl, rfl⟩

end Sample

end Classwright

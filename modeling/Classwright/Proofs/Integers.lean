import Classwright.Check.Body
import Classwright.Machine.Invoke
import Classwright.Proofs.Ensuring
import Classwright.Proofs.Operators

/-!
# Operators on integers

Five of the primitive types have integers for values. An operator on two of them is carried out on
the exact integers, and what comes out is reduced to a word: of 64 bits if an operand is a `long`,
and of 32 bits otherwise. The checker gives the result the type of that word, and the casts that it
puts around operands change no result.
-/

namespace Classwright

open Check

/-! ### Exact integers -/

namespace Primitive

/-- The types whose values are integers. -/
def isIntegral : Primitive → Bool
  | byte | short | char | int | long => true
  | _ => false

/-- The type in whose words two integers are worked on. -/
def wordType (a b : Primitive) : Primitive := if a = long ∨ b = long then long else int

/-- The number of words of a type in which integers are worked on. -/
def wordCount : Primitive → Nat
  | long => UInt64.size
  | _ => UInt32.size

theorem promoteWith_integral {a b : Primitive} (ha : a.isIntegral = true)
    (hb : b.isIntegral = true) : a.promoteWith b = a.wordType b := by
  cases a <;> cases ha <;> cases b <;> cases hb <;> rfl

theorem promoted_integral {a : Primitive} (ha : a.isIntegral = true) :
    a.promoted = a.wordType a := by
  cases a <;> cases ha <;> rfl

theorem isNumeric_of_isIntegral {a : Primitive} (ha : a.isIntegral = true) :
    a.isNumeric = true := by
  cases a <;> cases ha <;> rfl

/-- One of the two types that words have. -/
def IsWord (type : Primitive) : Prop := type = long ∨ type = int

/-- Words of the type hold all integers of the other type. -/
def Holds (type source : Primitive) : Prop := type = long ∨ type = int ∧ source ≠ long

theorem Holds.isWord {type source : Primitive} (h : type.Holds source) : type.IsWord :=
  h.imp_right (·.1)

theorem holds_wordType (a b : Primitive) :
    (a.wordType b).Holds a ∧ (a.wordType b).Holds b := by
  unfold wordType
  split
  · exact ⟨.inl rfl, .inl rfl⟩
  · rename_i neither
    obtain ⟨left, right⟩ := not_or.1 neither
    exact ⟨.inr ⟨rfl, left⟩, .inr ⟨rfl, right⟩⟩

/-- The type of the words stays what it is if operands are cast to it. -/
theorem wordType_cast {p q p' q' : Primitive} (left : p' = p ∨ p' = p.wordType q)
    (right : q' = q ∨ q' = p.wordType q) : p'.wordType q' = p.wordType q := by
  rcases left with rfl | rfl <;> rcases right with rfl | rfl <;> simp only [wordType] <;> grind

end Primitive

namespace Value

/-- The integer that a value of one of the five types is; a character stands for the low 16 bits of
its code. -/
def integer? : Value → Option Int
  | byte v => some v.toInt
  | short v => some v.toInt
  | char c => some (c.toNat % UInt16.size : Nat)
  | int v => some v.toInt
  | long v => some v.toInt
  | _ => none

/-- The value is of the type, and it is this integer. -/
structure IsInteger (v : Value) (type : Primitive) (n : Int) : Prop where
  ofType : v.primitive? = some type
  exactly : v.integer? = some n

end Value

/-! ### Operators on exact integers -/

namespace Exact

/-- An integer cut to a word of the type. -/
def word : Primitive → Int → Value
  | .long, n => .long (.ofInt n)
  | _, n => .int (.ofInt n)

/-- An operator on integers. Quotients are cut toward zero, so that remainders have the sign of the
dividend; what comes out is cut to a word of the type. -/
def binary (type : Primitive) : BinaryOp → Int → Int → Except Failure Value
  | .add, x, y => .ok (word type (x + y))
  | .sub, x, y => .ok (word type (x - y))
  | .mul, x, y => .ok (word type (x * y))
  | .div, x, y => if y = 0 then .error .divisionByZero else .ok (word type (x.tdiv y))
  | .rem, x, y => if y = 0 then .error .divisionByZero else .ok (word type (x.tmod y))
  | .eq, x, y => .ok (.bool (x = y))
  | .ne, x, y => .ok (.bool (x ≠ y))
  | .lt, x, y => .ok (.bool (x < y))
  | .le, x, y => .ok (.bool (x ≤ y))
  | .gt, x, y => .ok (.bool (x > y))
  | .ge, x, y => .ok (.bool (x ≥ y))

/-- The type of what an operator gives. -/
def resultType (type : Primitive) (op : BinaryOp) : Primitive :=
  if op.isComparison then .boolean else type

/-- A word is the integer that is congruent to the exact one and of the word's size. -/
theorem isInteger_word {type : Primitive} (ofWords : type.IsWord) (n : Int) :
    (word type n).IsInteger type (n.bmod type.wordCount) := by
  rcases ofWords with rfl | rfl
  · exact ⟨rfl, congrArg some Int64.toInt_ofInt⟩
  · exact ⟨rfl, congrArg some Int32.toInt_ofInt⟩

theorem primitive?_binary {type : Primitive} (ofWords : type.IsWord)
    {op : BinaryOp} {x y : Int} {v : Value} (made : binary type op x y = .ok v) :
    v.primitive? = some (resultType type op) := by
  have word_ := fun n => (isInteger_word ofWords n).ofType
  cases op <;> simp only [binary] at made
  case div | rem =>
    split at made <;> cases made
    exact word_ _
  case add | sub | mul =>
    cases made
    exact word_ _
  all_goals
    cases made
    rfl

/-- Only a division by zero fails. -/
theorem binary_eq_error_iff {type : Primitive} {op : BinaryOp} {x y : Int} {f : Failure} :
    binary type op x y = .error f ↔ f = .divisionByZero ∧ (op = .div ∨ op = .rem) ∧ y = 0 := by
  cases op <;> simp only [binary]
  case div | rem =>
    by_cases zero : y = 0
    · rw [if_pos zero]
      simp [zero, eq_comm]
    · rw [if_neg zero]
      simp [zero]
  all_goals simp

end Exact

/-! ### Operands -/

namespace Value.IsInteger

variable {v : Value} {p : Primitive} {n : Int}

theorem isIntegral (h : v.IsInteger p n) : p.isIntegral = true := by
  obtain ⟨ofType, exactly⟩ := h
  cases v <;> cases ofType <;> cases exactly <;> rfl

theorem numericKind? (h : v.IsInteger p n) : Arithmetic.numericKind? v = some p := by
  rw [Arithmetic.numericKind?, h.ofType, Option.filter_some,
    if_pos (Primitive.isNumeric_of_isIntegral h.isIntegral)]

/-- An integer fits a word of 64 bits, and one of 32 bits unless it is a `long`. -/
theorem bounds (h : v.IsInteger p n) :
    (Int64.minValue.toInt ≤ n ∧ n ≤ Int64.maxValue.toInt) ∧
      (p ≠ .long → Int32.minValue.toInt ≤ n ∧ n ≤ Int32.maxValue.toInt) := by
  obtain ⟨ofType, exactly⟩ := h
  rw [Int64.toInt_minValue, Int64.toInt_maxValue, Int32.toInt_minValue, Int32.toInt_maxValue]
  cases v <;> cases ofType <;> cases exactly
  case byte v =>
    have := v.le_toInt
    have := v.toInt_lt
    exact ⟨by omega, fun _ => by omega⟩
  case short v =>
    have := v.le_toInt
    have := v.toInt_lt
    exact ⟨by omega, fun _ => by omega⟩
  case char c =>
    have : c.toNat % UInt16.size < 65536 := Nat.mod_lt _ (by decide)
    exact ⟨by omega, fun _ => by omega⟩
  case int v =>
    have := v.le_toInt
    have := v.toInt_lt
    exact ⟨by omega, fun _ => by omega⟩
  case long v =>
    have := v.le_toInt
    have := v.toInt_lt
    exact ⟨by omega, fun short => absurd rfl short⟩

/-- A cast to `int` or `long` cuts the integer to a word. -/
theorem convert (h : v.IsInteger p n) {type : Primitive} (ofWords : type.IsWord) :
    v.convert type = some (Exact.word type n) := by
  obtain ⟨ofType, exactly⟩ := h
  have long : ∀ w : Int64, w.toInt = n → Value.ofNumeric (.integral w) type
      = some (Exact.word type n) := by
    rintro w rfl
    rcases ofWords with rfl | rfl
    · simp [Value.ofNumeric, Exact.word, Numeric.long]
    · simp only [Value.ofNumeric, Exact.word, Numeric.word, ← Int64.toInt32_ofInt,
        Int64.ofInt_toInt]
  cases v <;> cases ofType <;> cases exactly
  case byte v => exact long _ v.toInt_toInt64
  case short v => exact long _ v.toInt_toInt64
  case char c =>
    have below : c.toNat % UInt16.size < 65536 := Nat.mod_lt _ (by decide)
    exact long _ (Int64.toInt_ofNat_of_lt (by omega))
  case int v => exact long _ v.toInt_toInt64
  case long v => exact long _ rfl

/-- A cast to a type that holds the integer keeps it. -/
theorem cast (h : v.IsInteger p n) {type : Primitive}
    (holds : type.Holds p) : (Exact.word type n).IsInteger type n := by
  obtain ⟨asLong, asInt⟩ := h.bounds
  rw [Int64.toInt_minValue, Int64.toInt_maxValue] at asLong
  rw [Int32.toInt_minValue, Int32.toInt_maxValue] at asInt
  rcases holds with rfl | ⟨rfl, short⟩
  · exact ⟨rfl, congrArg some (Int64.toInt_ofInt_of_le (by omega) (by omega))⟩
  · have := asInt short
    exact ⟨rfl, congrArg some (Int32.toInt_ofInt_of_le (by omega) (by omega))⟩

end Value.IsInteger

/-! ### Operators of the machine -/

namespace Arithmetic

/-- A comparison of exact integers. -/
theorem holds_orderInt {op : BinaryOp} (comparison : op.isComparison = true) (type : Primitive)
    (x y : Int) : Except.ok (.bool (holds op (orderInt x y))) = Exact.binary type op x y := by
  have order : compare x y = if x < y then .lt else if x = y then .eq else .gt := rfl
  rw [orderInt, order]
  rcases Int.lt_trichotomy x y with less | rfl | more
  · rw [if_pos less]
    cases op <;> cases comparison <;> simp [Exact.binary, holds, bne] <;> omega
  · cases op <;> cases comparison <;> simp [Exact.binary, holds]
  · rw [if_neg (by omega), if_neg (by omega)]
    cases op <;> cases comparison <;> simp [Exact.binary, holds, bne] <;> omega

theorem onInts_exact (op : BinaryOp) (a b : Int32) :
    onInts op a b = Exact.binary .int op a.toInt b.toInt := by
  have zero : b = 0 ↔ b.toInt = 0 := Int32.toInt_inj.symm
  cases op
  case add | sub | mul =>
    simp [onInts, Exact.binary, Exact.word, Int32.ofInt_add, Int32.ofInt_sub, Int32.ofInt_mul]
  case div =>
    have quotient : a / b = .ofInt (a.toInt.tdiv b.toInt) := by
      rw [← Int32.toInt_inj, Int32.toInt_div]
      exact Int32.toInt_ofInt.symm
    simp only [onInts, Exact.binary, Exact.word, zero, quotient]
  case rem =>
    have remainder : a % b = .ofInt (a.toInt.tmod b.toInt) := by
      rw [← Int32.toInt_mod, Int32.ofInt_toInt]
    simp only [onInts, Exact.binary, Exact.word, zero, remainder]
  all_goals exact holds_orderInt rfl .int _ _

theorem onLongs_exact (op : BinaryOp) (a b : Int64) :
    onLongs op a b = Exact.binary .long op a.toInt b.toInt := by
  have zero : b = 0 ↔ b.toInt = 0 := Int64.toInt_inj.symm
  cases op
  case add | sub | mul =>
    simp [onLongs, Exact.binary, Exact.word, Int64.ofInt_add, Int64.ofInt_sub, Int64.ofInt_mul]
  case div =>
    have quotient : a / b = .ofInt (a.toInt.tdiv b.toInt) := by
      rw [← Int64.toInt_inj, Int64.toInt_div]
      exact Int64.toInt_ofInt.symm
    simp only [onLongs, Exact.binary, Exact.word, zero, quotient]
  case rem =>
    have remainder : a % b = .ofInt (a.toInt.tmod b.toInt) := by
      rw [← Int64.toInt_mod, Int64.ofInt_toInt]
    simp only [onLongs, Exact.binary, Exact.word, zero, remainder]
  all_goals exact holds_orderInt rfl .long _ _

variable {a b : Value} {p q : Primitive} {x y : Int}

/-- Both operands become words of the type in which they are worked on. -/
theorem promote_integers (ha : a.IsInteger p x) (hb : b.IsInteger q y) :
    promote a b = some (Exact.word (p.wordType q) x, Exact.word (p.wordType q) y) := by
  have ofWords := (p.holds_wordType q).1.isWord
  simp only [promote, ha.numericKind?, hb.numericKind?, Option.bind_eq_bind, Option.bind_some,
    Option.pure_def,
    Primitive.promoteWith_integral ha.isIntegral hb.isIntegral, ha.convert ofWords,
    hb.convert ofWords]

/-- The machine works on integers as if on exact ones. -/
theorem binary_exact (op : BinaryOp) (ha : a.IsInteger p x) (hb : b.IsInteger q y) :
    binary op a b = Exact.binary (p.wordType q) op x y := by
  unfold binary
  rw [promote_integers ha hb]
  obtain ⟨holds, holds'⟩ := p.holds_wordType q
  have hx := (ha.cast holds).exactly
  have hy := (hb.cast holds').exactly
  rcases holds.isWord with type | type <;> rw [type] at hx hy ⊢
  · exact (onLongs_exact op _ _).trans (by rw [Option.some.inj hx, Option.some.inj hy])
  · exact (onInts_exact op _ _).trans (by rw [Option.some.inj hx, Option.some.inj hy])

theorem isText_integer (ha : a.IsInteger p x) : isText a = false := by
  obtain ⟨-, exactly⟩ := ha
  cases a with
  | str s => cases exactly
  | _ => rfl

theorem negate_exact (ha : a.IsInteger p x) :
    negate a = .ok (Exact.word (p.wordType p) (-x)) := by
  have ofWords := (p.holds_wordType p).1.isWord
  unfold negate promoted
  rw [ha.numericKind?, Option.bind_some, Primitive.promoted_integral ha.isIntegral,
    ha.convert ofWords]
  rcases ofWords with type | type
  · simp only [type, Exact.word, Int64.ofInt_neg]
  · simp only [type, Exact.word, Int32.ofInt_neg]

end Arithmetic

/-- No operand is a text, so a sum is one of numbers. -/
theorem binary_integers {a b : Value} {p q : Primitive} {x y : Int} {call : Invoke} (op : BinaryOp)
    (ha : a.IsInteger p x) (hb : b.IsInteger q y) :
    binary call op a b = Run.ofExcept (Exact.binary (p.wordType q) op x y) := by
  unfold binary
  rw [if_neg (by simp [Arithmetic.isText_integer ha, Arithmetic.isText_integer hb]),
    Arithmetic.binary_exact op ha hb]

/-! ### What the checker makes of them -/

theorem Value.exists_isInteger {v : Value} {p : Primitive} (integral : p.isIntegral = true)
    (own : v.primitive? = some p) : ∃ n, v.IsInteger p n := by
  cases v <;> cases own <;> cases integral <;> exact ⟨_, rfl, rfl⟩

namespace Check

variable {p q : Primitive} (hp : p.isIntegral = true)

include hp

theorem lowerBinary_integers (hq : q.isIntegral = true) (op : BinaryOp) (l r : Code.Expr)
    (span : Span) (st : BodyState) :
    lowerBinary op (l, .primitive p) (r, .primitive q) span st
      = ((.binary op (promote l p (p.wordType q)) (promote r q (p.wordType q)),
        .primitive (Exact.resultType (p.wordType q) op)), st) := by
  have numeric : (StaticType.primitive p).numeric? = some p :=
    if_pos (Primitive.isNumeric_of_isIntegral hp)
  have numeric' : (StaticType.primitive q).numeric? = some q :=
    if_pos (Primitive.isNumeric_of_isIntegral hq)
  unfold lowerBinary
  dsimp only
  rw [if_neg (by simp), if_neg (by simp [StaticType.isString, StaticType.string]), numeric,
    numeric']
  dsimp only
  rw [Primitive.promoteWith_integral hp hq, Exact.resultType]
  cases op.isComparison <;> rfl

theorem lowerNegate_integer (e : Code.Expr) (span : Span) (st : BodyState) :
    lowerUnary .negate (e, .primitive p) span st
      = ((.unary .negate (promote e p (p.wordType p)), .primitive (p.wordType p)), st) := by
  have numeric : (StaticType.primitive p).numeric? = some p :=
    if_pos (Primitive.isNumeric_of_isIntegral hp)
  unfold lowerUnary
  dsimp only
  rw [if_neg (by simp), numeric]
  dsimp only
  rw [Primitive.promoted_integral hp]
  rfl

end Check

/-! ### Casts of operands -/

/-- The values of the expression are of the type, in the frame and with these calls. -/
def Code.Expr.HasType (calls : Calls) (frame : Frame) (e : Code.Expr) (type : Primitive) : Prop :=
  ∀ locals s v locals' s', eval calls frame e locals s = (.ok (v, locals'), s') →
    v.primitive? = some type

/-- The expression as it is, or cast to the type. -/
def IsCast (type : Primitive) (e e' : Code.Expr) : Prop := e' = e ∨ e' = convert (.primitive type) e

theorem isCast_promote (e : Code.Expr) (source target : Primitive) :
    IsCast target e (promote e source target) := by
  unfold promote
  split
  · exact .inl rfl
  · exact .inr rfl

section

variable {calls : Calls} {frame : Frame} {e e' : Code.Expr} {p type : Primitive}

/-- An expression that is cast stops where it stopped before, or gives the same integer. -/
theorem eval_isCast (integral : p.isIntegral = true) (typed : e.HasType calls frame p)
    (holds : type.Holds p) (same : IsCast type e e')
    (locals : List Value) (s : Store) :
    (∃ stop t, eval calls frame e locals s = (.error stop, t) ∧
      eval calls frame e' locals s = (.error stop, t)) ∨
    ∃ v v' p' n locals' t, eval calls frame e locals s = (.ok (v, locals'), t) ∧
      eval calls frame e' locals s = (.ok (v', locals'), t) ∧
      v.IsInteger p n ∧ v'.IsInteger p' n ∧ (p' = p ∨ p' = type) := by
  cases ran : eval calls frame e locals s with
  | mk result t =>
    cases result with
    | error stop =>
      refine .inl ⟨stop, t, rfl, ?_⟩
      rcases same with rfl | rfl
      · exact ran
      · rw [convert, eval]
        exact Body.bind_error ran
    | ok r =>
      obtain ⟨v, locals'⟩ := r
      obtain ⟨n, integer⟩ := Value.exists_isInteger integral (typed _ _ _ _ _ ran)
      rcases same with rfl | rfl
      · exact .inr ⟨v, v, p, n, locals', t, rfl, ran, integer, integer, .inl rfl⟩
      · refine .inr ⟨v, _, type, n, locals', t, rfl, ?_, integer, integer.cast holds, .inr rfl⟩
        have cut := integer.convert holds.isWord
        rw [convert, eval, Body.bind_value ran]
        dsimp only [castTo]
        rw [cut]
        rfl

variable {l l' r r' : Code.Expr} {q : Primitive}

/-- Casts of operands to the type in which they are worked on change nothing. -/
theorem eval_binary_isCast (hp : p.isIntegral = true) (hq : q.isIntegral = true)
    (left : l.HasType calls frame p) (right : r.HasType calls frame q)
    (hl : IsCast (p.wordType q) l l') (hr : IsCast (p.wordType q) r r') (op : BinaryOp) :
    eval calls frame (.binary op l' r') = eval calls frame (.binary op l r) := by
  funext locals s
  rw [eval, eval]
  obtain ⟨holds, holds'⟩ := p.holds_wordType q
  rcases eval_isCast hp left holds hl locals s with ⟨stop, t, ran, ran'⟩ |
    ⟨a, a', p', x, locals', t, ran, ran', ha, ha', type⟩
  · rw [Body.bind_error ran, Body.bind_error ran']
  rw [Body.bind_value ran, Body.bind_value ran']
  rcases eval_isCast hq right holds' hr locals' t with ⟨stop, u, ran, ran'⟩ |
    ⟨b, b', q', y, locals'', u, ran, ran', hb, hb', type'⟩
  · rw [Body.bind_error ran, Body.bind_error ran']
  rw [Body.bind_value ran, Body.bind_value ran']
  dsimp only
  rw [binary_integers op ha hb, binary_integers op ha' hb', Primitive.wordType_cast type type']

theorem eval_negate_isCast (hp : p.isIntegral = true) (typed : e.HasType calls frame p)
    (same : IsCast (p.wordType p) e e') :
    eval calls frame (.unary .negate e') = eval calls frame (.unary .negate e) := by
  funext locals s
  rw [eval, eval]
  rcases eval_isCast hp typed (p.holds_wordType p).1 same locals s with ⟨stop, t, ran, ran'⟩ |
    ⟨v, v', p', n, locals', t, ran, ran', hv, hv', type⟩
  · rw [Body.bind_error ran, Body.bind_error ran']
  rw [Body.bind_value ran, Body.bind_value ran']
  dsimp only [Arithmetic.unary]
  rw [Arithmetic.negate_exact hv, Arithmetic.negate_exact hv', Primitive.wordType_cast type type]

end

/-- Operators on operands of two integer types are exact up to the size of a word. The words are of
the type `long` if one of the operands is, and of the type `int` otherwise. Code for an operator has
the type of a word, or is a truth value for a comparison. What the operator gives when it runs is
what it gives on the exact integers, cut to a word; it is of the static type, and it fails for `/`
and `%` with the divisor zero only. The same holds of a minus sign. Casting operands to the type of
the words changes neither, so the code that the checker makes gives what the operands give. -/
theorem integer_operators {p q : Primitive} (hp : p.isIntegral = true) (hq : q.isIntegral = true)
    (op : BinaryOp) :
    (∀ l r span st, lowerBinary op (l, .primitive p) (r, .primitive q) span st
      = ((.binary op (promote l p (p.wordType q)) (promote r q (p.wordType q)),
        .primitive (Exact.resultType (p.wordType q) op)), st)) ∧
    (∀ e span st, lowerUnary .negate (e, .primitive p) span st
      = ((.unary .negate (promote e p (p.wordType p)), .primitive (p.wordType p)), st)) ∧
    (∀ a b x y, a.IsInteger p x → b.IsInteger q y →
      (∀ call, binary call op a b = Run.ofExcept (Exact.binary (p.wordType q) op x y)) ∧
      (∀ v, Exact.binary (p.wordType q) op x y = .ok v →
        v.primitive? = some (Exact.resultType (p.wordType q) op)) ∧
      (∀ f, Exact.binary (p.wordType q) op x y = .error f ↔
        f = .divisionByZero ∧ (op = .div ∨ op = .rem) ∧ y = 0)) ∧
    (∀ a x, a.IsInteger p x →
      Arithmetic.unary .negate a = .ok (Exact.word (p.wordType p) (-x))) ∧
    (∀ q n, (Exact.word (p.wordType q) n).IsInteger (p.wordType q)
      (n.bmod (p.wordType q).wordCount)) ∧
    (∀ calls frame l r, l.HasType calls frame p → r.HasType calls frame q →
      (∀ l' r', IsCast (p.wordType q) l l' → IsCast (p.wordType q) r r' →
        eval calls frame (.binary op l' r') = eval calls frame (.binary op l r)) ∧
      (∀ l', IsCast (p.wordType p) l l' →
        eval calls frame (.unary .negate l') = eval calls frame (.unary .negate l)) ∧
      ∀ span st,
        eval calls frame (lowerBinary op (l, .primitive p) (r, .primitive q) span st).1.1
          = eval calls frame (.binary op l r) ∧
        eval calls frame (lowerUnary .negate (l, .primitive p) span st).1.1
          = eval calls frame (.unary .negate l)) := by
  have ofWords := fun q => (p.holds_wordType q).1.isWord
  refine ⟨lowerBinary_integers hp hq op, lowerNegate_integer hp, ?_, ?_, ?_, ?_⟩
  · intro a b x y ha hb
    exact ⟨fun call => binary_integers op ha hb,
      fun v made => Exact.primitive?_binary (ofWords q) made,
      fun f => Exact.binary_eq_error_iff⟩
  · intro a x ha
    exact Arithmetic.negate_exact ha
  · intro q n
    exact Exact.isInteger_word (ofWords q) n
  · intro calls frame l r left right
    refine ⟨fun l' r' hl hr => eval_binary_isCast hp hq left right hl hr op,
      fun l' same => eval_negate_isCast hp left same, fun span st => ⟨?_, ?_⟩⟩
    · rw [lowerBinary_integers hp hq op]
      exact eval_binary_isCast hp hq left right (isCast_promote _ _ _) (isCast_promote _ _ _) op
    · rw [lowerNegate_integer hp]
      exact eval_negate_isCast hp left (isCast_promote _ _ _)

namespace Sample

/-- A body of a class without members. -/
def bareFrame : Frame where
  this? := none
  cls := ⟨0, ⟨Code.formatVersion, "Bare", Builtin.object, [], [], [], [], []⟩, 0, 64⟩

def least : Code.Expr := .const (.int (-2147483648))

/-- A `byte`; constants are at least of type `int`. -/
def minusOne : Code.Expr := convert (.primitive .byte) (.const (.int (-1)))

theorem least_hasType : least.HasType (.within unlimited) bareFrame .int := by
  intro locals s v locals' s' ran
  rw [least, eval] at ran
  cases ran
  rfl

theorem minusOne_hasType : minusOne.HasType (.within unlimited) bareFrame .byte := by
  intro locals s v locals' s' ran
  rw [minusOne, convert, eval, eval] at ran
  cases ran
  rfl

/-- The least `int` is its own quotient by the `byte` -1, whether or not that is cast to `int`. -/
theorem least_quotient :
    (Primitive.int.isIntegral = true ∧ Primitive.byte.isIntegral = true) ∧
    ((Value.int (-2147483648)).IsInteger .int (-2147483648) ∧
      (Value.byte (-1)).IsInteger .byte (-1)) ∧
    binary invoke .div (.int (-2147483648)) (.byte (-1))
      = Run.ofExcept (.ok (.int (-2147483648))) ∧
    Arithmetic.unary .negate (.int (-2147483648)) = .ok (.int (-2147483648)) ∧
    (least.HasType (.within unlimited) bareFrame .int ∧
      minusOne.HasType (.within unlimited) bareFrame .byte) ∧
    eval (.within unlimited) bareFrame (.binary .div least (convert (.primitive .int) minusOne))
      = eval (.within unlimited) bareFrame (.binary .div least minusOne) := by
  have a : (Value.int (-2147483648)).IsInteger .int (-2147483648) := ⟨rfl, rfl⟩
  have b : (Value.byte (-1)).IsInteger .byte (-1) := ⟨rfl, rfl⟩
  obtain ⟨-, -, operands, negated, -, cast⟩ :=
    integer_operators (p := .int) (q := .byte) rfl rfl .div
  refine ⟨⟨rfl, rfl⟩, ⟨a, b⟩, (operands _ _ _ _ a b).1 invoke, negated _ _ a,
    ⟨least_hasType, minusOne_hasType⟩, ?_⟩
  exact (cast _ _ _ _ least_hasType minusOne_hasType).1 _ _ (.inl rfl) (.inr rfl)

end Sample

end Classwright

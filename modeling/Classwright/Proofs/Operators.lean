import Classwright.Machine.Arithmetic
import Classwright.Proofs.World

/-!
# Types of results of operators

Operands of one numeric type of at least 32 bits give results of that type, comparisons give truth
values, and nothing but a text makes a sum with a text.
-/

namespace Classwright

namespace Primitive

/-- The types in which numbers are worked on. -/
def IsWork (kind : Primitive) : Prop := kind = .int ∨ kind = .long ∨ kind = .float ∨ kind = .double

theorem isWork_promoted {kind : Primitive} (numeric : kind.isNumeric = true) :
    kind.promoted.IsWork := by
  cases kind <;> simp_all [isNumeric, promoted, IsWork]

theorem isWork_promoteWith {a b : Primitive} (ha : a.isNumeric = true) (hb : b.isNumeric = true) :
    (a.promoteWith b).IsWork := by
  unfold promoteWith
  split
  · exact isWork_promoted ha
  · exact isWork_promoted hb

theorem IsWork.promoted_eq {kind : Primitive} (work : kind.IsWork) : kind.promoted = kind := by
  rcases work with rfl | rfl | rfl | rfl <;> rfl

theorem IsWork.promoteWith_self {kind : Primitive} (work : kind.IsWork) :
    kind.promoteWith kind = kind := by
  rcases work with rfl | rfl | rfl | rfl <;> rfl

theorem IsWork.isNumeric {kind : Primitive} (work : kind.IsWork) : kind.isNumeric = true := by
  rcases work with rfl | rfl | rfl | rfl <;> rfl

end Primitive

namespace Arithmetic

variable {op : BinaryOp} {a b v : Value} {kind : Primitive}

/-- A comparison that has a result says whether it holds. -/
theorem isBool_of_comparison (comparison : op.isComparison = true)
    (made : binary op a b = .ok v) : v.primitive? = some .boolean := by
  unfold binary at made
  split at made
  · split at made <;> cases made <;> rfl
  · cases op <;> cases comparison <;> cases made <;> rfl
  · cases op <;> cases comparison <;> cases made <;> rfl
  · cases op <;> cases comparison <;> cases made <;> rfl
  · cases op <;> cases comparison <;> cases made <;> rfl
  · cases made

theorem primitive?_onInts {x y : Int32} (notComparison : op.isComparison = false)
    (made : onInts op x y = .ok v) : v.primitive? = some .int := by
  cases op <;> simp only [onInts, BinaryOp.isComparison, Bool.true_eq_false] at made notComparison
  case div | rem =>
    split at made
    · cases made
    · cases made
      rfl
  all_goals
    cases made
    rfl

theorem primitive?_onLongs {x y : Int64} (notComparison : op.isComparison = false)
    (made : onLongs op x y = .ok v) : v.primitive? = some .long := by
  cases op <;> simp only [onLongs, BinaryOp.isComparison, Bool.true_eq_false] at made notComparison
  case div | rem =>
    split at made
    · cases made
    · cases made
      rfl
  all_goals
    cases made
    rfl

/-- What is promoted is of the type in which both operands are worked on. -/
theorem primitive?_promote {x y : Value} (made : promote a b = some (x, y)) :
    ∃ p q, a.primitive? = some p ∧ b.primitive? = some q
      ∧ x.primitive? = some (p.promoteWith q) ∧ y.primitive? = some (p.promoteWith q) := by
  simp only [promote, numericKind?, Option.bind_eq_bind, Option.bind_eq_some_iff,
    Option.filter_eq_some_iff, Option.pure_def, Option.some.injEq, Prod.mk.injEq] at made
  obtain ⟨p, ⟨hp, _⟩, q, ⟨hq, _⟩, x', hx, y', hy, rfl, rfl⟩ := made
  exact ⟨p, q, hp, hq, Value.convert_primitive hx, Value.convert_primitive hy⟩

/-- An operator that is no comparison keeps the type in which it works. -/
theorem primitive?_binary (notComparison : op.isComparison = false) (made : binary op a b = .ok v) :
    ∃ p q, a.primitive? = some p ∧ b.primitive? = some q
      ∧ v.primitive? = some (p.promoteWith q) := by
  unfold binary at made
  split at made
  · cases op <;> cases notComparison <;> cases made
  · rename_i promoted
    obtain ⟨p, q, hp, hq, hx, -⟩ := primitive?_promote promoted
    exact ⟨p, q, hp, hq, (primitive?_onInts notComparison made).trans hx⟩
  · rename_i promoted
    obtain ⟨p, q, hp, hq, hx, -⟩ := primitive?_promote promoted
    exact ⟨p, q, hp, hq, (primitive?_onLongs notComparison made).trans hx⟩
  · rename_i promoted
    obtain ⟨p, q, hp, hq, hx, -⟩ := primitive?_promote promoted
    refine ⟨p, q, hp, hq, Eq.trans ?_ hx⟩
    cases op <;> cases notComparison <;> cases made <;> rfl
  · rename_i promoted
    obtain ⟨p, q, hp, hq, hx, -⟩ := primitive?_promote promoted
    refine ⟨p, q, hp, hq, Eq.trans ?_ hx⟩
    cases op <;> cases notComparison <;> cases made <;> rfl
  · cases made

theorem primitive?_negate (made : negate a = .ok v) :
    ∃ p, a.primitive? = some p ∧ v.primitive? = some p.promoted := by
  have kept : ∀ w, promoted a = some w → ∃ p, a.primitive? = some p
      ∧ w.primitive? = some p.promoted := by
    intro w made
    simp only [promoted, numericKind?, Option.bind_eq_some_iff, Option.filter_eq_some_iff] at made
    obtain ⟨p, ⟨hp, _⟩, hw⟩ := made
    exact ⟨p, hp, Value.convert_primitive hw⟩
  unfold negate at made
  split at made
  case h_5 => cases made
  all_goals
    rename_i promoted
    cases made
    obtain ⟨p, own, result⟩ := kept _ promoted
    exact ⟨p, own, result⟩

/-- Whatever an operator gives is of a primitive type. -/
theorem exists_primitive?_binary (made : binary op a b = .ok v) : ∃ p, v.primitive? = some p := by
  cases comparison : op.isComparison with
  | true => exact ⟨_, isBool_of_comparison comparison made⟩
  | false =>
    obtain ⟨p, q, _, _, result⟩ := primitive?_binary comparison made
    exact ⟨_, result⟩

theorem exists_primitive?_unary {sign : Code.UnaryOp} (made : unary sign a = .ok v) :
    ∃ p, v.primitive? = some p := by
  cases sign with
  | negate =>
    obtain ⟨p, _, result⟩ := primitive?_negate made
    exact ⟨_, result⟩
  | not =>
    cases a <;> cases made
    exact ⟨_, rfl⟩

/-- An operator fails on a division by zero and on operands that it is not for. -/
theorem binary_error {f : Failure} (failed : binary op a b = .error f) :
    f = .divisionByZero ∨ f = badOperands op a b := by
  unfold binary at failed
  split at failed
  · split at failed <;> cases failed
    exact .inr rfl
  · cases op <;> simp only [onInts] at failed
    case div | rem =>
      split at failed <;> cases failed
      exact .inl rfl
    all_goals cases failed
  · cases op <;> simp only [onLongs] at failed
    case div | rem =>
      split at failed <;> cases failed
      exact .inl rfl
    all_goals cases failed
  · cases failed
  · cases failed
  · cases failed
    exact .inr rfl

theorem unary_error {sign : Code.UnaryOp} {f : Failure} (failed : unary sign a = .error f) :
    ∃ text, f = .illegalArgument (.badOperand text a.kindName) := by
  cases sign with
  | negate =>
    simp only [unary, negate] at failed
    split at failed <;> cases failed
    exact ⟨_, rfl⟩
  | not =>
    cases a <;> cases failed <;> exact ⟨_, rfl⟩

end Arithmetic

end Classwright

import Classwright.Check.Compile
import Classwright.Machine.Conversion
import Classwright.Proofs.Subtyping

/-!
# Conformance of values

What the coercion of a value gives is a value of the type, and values of a type come through
coercion. What a class under compilation regards as assignable is so for every value, provided that
the names of generated classes are their own and no builtin name is declared as a type.
-/

namespace Classwright

/-- No builtin name is declared, and every parent that a declared type names is known. -/
structure TypeTable.Regular (t : TypeTable) : Prop where
  builtin_free : ∀ name ∈ Builtin.all, t.lookup name = none
  parents_known : ∀ d ∈ t.types, ∀ parent ∈ d.parents, t.resolves parent = true

namespace Value

variable {tables : Tables}

@[simp] theorem isInstanceOf_object (v : Value) : v.isInstanceOf tables .object = true := by
  simp [TypeRef.object, isInstanceOf]

theorem isInstanceOf_void (v : Value) : v.isInstanceOf tables .void = false := rfl

@[simp] theorem isInstanceOf_primitive (kind : Primitive) (v : Value) :
    v.isInstanceOf tables (.primitive kind) = true ↔ v.primitive? = some kind := by
  simp [isInstanceOf]

theorem isInstanceOf_named (name : String) (v : Value) :
    v.isInstanceOf tables (.named name) = (name == Builtin.object || v.isReference tables name) :=
  rfl

/-- `null` is of every reference type. -/
theorem isInstanceOf_null {t : TypeRef} (novoid : t ≠ .void) (noprim : ∀ k, t ≠ .primitive k) :
    Value.null.isInstanceOf tables t = true := by
  cases t with
  | void => exact absurd rfl novoid
  | primitive k => exact absurd rfl (noprim k)
  | named name => simp [isInstanceOf, isReference]
  | array element => rfl

theorem ofNumeric_primitive {n : Numeric} {kind : Primitive} {w : Value}
    (made : ofNumeric n kind = some w) : w.primitive? = some kind := by
  cases kind <;> simp [ofNumeric] at made <;> subst made <;> rfl

theorem convert_primitive {kind : Primitive} {v w : Value} (made : v.convert kind = some w) :
    w.primitive? = some kind := by
  cases v with
  | bool b =>
    by_cases h : kind = .boolean
    · subst h
      simp only [convert, if_true, Option.some.injEq] at made
      subst made
      rfl
    · simp [convert, h] at made
  | _ =>
    simp only [convert, Option.bind_eq_some_iff] at made
    obtain ⟨n, _, made⟩ := made
    exact ofNumeric_primitive made

/-- A number converts to every numeric type. -/
theorem convert_isSome {v : Value} {own kind : Primitive} (h : v.primitive? = some own)
    (numeric : own.isNumeric = kind.isNumeric) : (v.convert kind).isSome = true := by
  cases v <;> simp only [primitive?, Option.some.injEq, reduceCtorEq] at h <;> subst h <;>
    cases kind <;> simp_all [convert, numeric?, ofNumeric, Primitive.isNumeric]

/-- What a coercion gives is of the type. -/
theorem isInstanceOf_of_coerceTo {t : TypeRef} {v w : Value} (made : v.coerceTo tables t = some w) :
    w.isInstanceOf tables t = true := by
  cases t with
  | primitive kind =>
    simp only [coerceTo] at made
    split at made
    · split at made
      · exact (isInstanceOf_primitive kind w).2 (convert_primitive made)
      · cases made
    · cases made
  | void => simp [coerceTo, isInstanceOf] at made
  | named name =>
    simp only [coerceTo, Option.ite_none_right_eq_some, Option.some.injEq] at made
    exact made.2 ▸ made.1
  | array element =>
    simp only [coerceTo, Option.ite_none_right_eq_some, Option.some.injEq] at made
    exact made.2 ▸ made.1

/-- A value of a reference type is its own coercion. -/
theorem coerceTo_of_isInstanceOf {t : TypeRef} {v : Value} (noprim : ∀ k, t ≠ .primitive k)
    (h : v.isInstanceOf tables t = true) : v.coerceTo tables t = some v := by
  cases t with
  | primitive k => exact absurd rfl (noprim k)
  | void => simp [isInstanceOf] at h
  | named name => simp [coerceTo, h]
  | array element => simp [coerceTo, h]

/-- A value of a type can be coerced to it. -/
theorem coerceTo_isSome_of_isInstanceOf {t : TypeRef} {v : Value}
    (h : v.isInstanceOf tables t = true) : (v.coerceTo tables t).isSome = true := by
  cases t with
  | primitive kind =>
    have own := (isInstanceOf_primitive kind v).1 h
    simp only [coerceTo, own, Primitive.widensTo, beq_self_eq_true, Bool.true_or, if_true]
    exact convert_isSome own rfl
  | void => simp [isInstanceOf] at h
  | named name => simp [coerceTo, h]
  | array element => simp [coerceTo, h]

theorem isInstanceOf_default {t : TypeRef} (novoid : t ≠ .void) :
    (Value.default t).isInstanceOf tables t = true := by
  cases t with
  | void => exact absurd rfl novoid
  | primitive kind => cases kind <;> rfl
  | named name => simp [Value.default, isInstanceOf, isReference]
  | array element => rfl

end Value

namespace Check.StaticType

/-- What the static type of an expression says about its value. Nothing is made of the value of a
`void` expression. -/
def Holds (tables : Tables) : StaticType → Value → Prop
  | void, _ => True
  | null, v => v = .null
  | primitive kind, v => v.primitive? = some kind
  | ref t, v => v.isInstanceOf tables t = true
  | error, _ => True

theorem holds_of_iff {tables : Tables} {t : TypeRef} (novoid : t ≠ .void) {v : Value} :
    (of t).Holds tables v ↔ v.isInstanceOf tables t = true := by
  cases t with
  | void => exact absurd rfl novoid
  | primitive kind => exact (Value.isInstanceOf_primitive kind v).symm
  | named name => exact Iff.rfl
  | array element => exact Iff.rfl

theorem holds_of_coerceTo {tables : Tables} {t : TypeRef} {v w : Value}
    (made : v.coerceTo tables t = some w) : (of t).Holds tables w := by
  cases t with
  | void => trivial
  | _ => exact (holds_of_iff (by simp)).2 (Value.isInstanceOf_of_coerceTo made)

end Check.StaticType

end Classwright

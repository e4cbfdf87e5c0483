import Classwright.Proofs.Integers
import Classwright.Proofs.Retraction

/-!
# Narrowing of constants

An `int` constant is accepted where a `byte`, a `short` or a `char` is required just if it is in the
range of the type. The code for it converts it when it runs. It is the same number then, unless it
is half of a surrogate pair and a character is required: there is no such character.
-/

namespace Classwright

open Check

namespace Check

/-- Half of a surrogate pair. -/
def isSurrogate (v : Int32) : Prop := 0xd800 ≤ v.toInt ∧ v.toInt ≤ 0xdfff

instance (v : Int32) : Decidable (isSurrogate v) := inferInstanceAs (Decidable (_ ∧ _))

/-- The types to which constants are narrowed. -/
def IsNarrow (kind : Primitive) : Prop := kind = .byte ∨ kind = .short ∨ kind = .char

/-- The number that a constant is once it has been narrowed. -/
def narrowed (kind : Primitive) (v : Int32) : Int32 :=
  if kind = .char ∧ isSurrogate v then 0xfffd else v

variable {v : Int32} {kind : Primitive}

/-! ### The code for a constant -/

theorem coerce_of_fits (cx : ClassContext) (fits : constantFits v kind = true) (span : Span)
    (st : BodyState) : coerce cx (.const (.int v)) .int (.primitive kind) span st
      = (convert (.primitive kind) (.const (.int v)), st) := by
  unfold coerce StaticType.int
  dsimp only
  rw [if_pos fits]
  rfl

/-- A constant out of range is reported. -/
theorem coerce_of_not_fits (cx : ClassContext) (narrow : IsNarrow kind)
    (out : constantFits v kind = false) (span : Span) (st : BodyState) :
    (coerce cx (.const (.int v)) .int (.primitive kind) span st).2.diagnostics
      = st.diagnostics ++ [⟨.incompatible "int" kind.keyword, span⟩] := by
  have refused : cx.isAssignable (.primitive .int) (.primitive kind) = false := by
    rcases narrow with rfl | rfl | rfl <;> rfl
  unfold coerce StaticType.int
  dsimp only
  rw [if_neg (by rw [out]; exact Bool.false_ne_true), refused]
  rfl

/-- The checker accepts the constants that fit, and no others. -/
theorem accepts_iff_fits (cx : ClassContext) (narrow : IsNarrow kind) (span : Span)
    (st : BodyState) :
    (coerce cx (.const (.int v)) .int (.primitive kind) span st).2.diagnostics = st.diagnostics ↔
      constantFits v kind = true := by
  constructor
  · intro accepted
    by_contra out
    rw [coerce_of_not_fits cx narrow (Bool.eq_false_iff.2 out)] at accepted
    simp at accepted
  · intro fits
    rw [coerce_of_fits cx fits]

/-! ### The constant when it runs -/

theorem isInteger_byte (lower : -128 ≤ v.toInt) (upper : v.toInt ≤ 127) :
    (Value.byte v.toInt8).IsInteger .byte v.toInt := by
  refine ⟨rfl, congrArg some ?_⟩
  rw [Int32.toInt_toInt8]
  exact Int.bmod_eq_of_le (by omega) (by omega)

theorem isInteger_short (lower : -32768 ≤ v.toInt) (upper : v.toInt ≤ 32767) :
    (Value.short v.toInt16).IsInteger .short v.toInt := by
  refine ⟨rfl, congrArg some ?_⟩
  rw [Int32.toInt_toInt16]
  exact Int.bmod_eq_of_le (by omega) (by omega)

/-- The low 16 bits of a constant that has no others. -/
theorem toNat_unit (lower : 0 ≤ v.toInt) (upper : v.toInt ≤ 65535) :
    (v.toUInt32.toUInt16.toNat : Int) = v.toInt := by
  have cut : v.toUInt32.toUInt16.toNat = v.toBitVec.toNat % 65536 := rfl
  have signed : v.toInt = (if 2 * v.toBitVec.toNat < 2 ^ 32 then (v.toBitVec.toNat : Int)
      else v.toBitVec.toNat - (2 ^ 32 : Nat)) := BitVec.toInt_eq_toNat_cond _
  have bound := v.toBitVec.isLt
  by_cases positive : 2 * v.toBitVec.toNat < 2 ^ 32
  · rw [if_pos positive] at signed
    omega
  · rw [if_neg positive] at signed
    omega

theorem isInteger_char (lower : 0 ≤ v.toInt) (upper : v.toInt ≤ 65535) :
    (Value.char (Value.charOfUnit v.toUInt32.toUInt16.toNat)).IsInteger .char
      (narrowed .char v).toInt := by
  have unit := toNat_unit lower upper
  generalize v.toUInt32.toUInt16.toNat = n at unit ⊢
  have small : n < UInt16.size := by
    change n < 65536
    omega
  refine ⟨rfl, congrArg some ?_⟩
  rw [Nat.mod_eq_of_lt (Value.charOfUnit_lt small), Value.toNat_charOfUnit, narrowed]
  by_cases surrogate : isSurrogate v
  · -- no character has the code, and the replacement character takes its place
    have invalid : ¬ n.isValidChar := by
      obtain ⟨least, greatest⟩ := surrogate
      rintro (below | above) <;> omega
    rw [if_neg invalid, if_pos ⟨rfl, surrogate⟩]
    rfl
  · have valid : n.isValidChar := by
      by_cases below : n < 0xd800
      · exact .inl below
      · refine .inr ⟨?_, by change n < 65536 at small; omega⟩
        by_contra above
        exact surrogate ⟨by omega, by omega⟩
    rw [if_pos valid, if_neg fun both => surrogate both.2]
    exact unit

/-- A constant that fits is converted to a value of the type that is required. -/
theorem convert_of_fits (fits : constantFits v kind = true) :
    ∃ w, (Value.int v).convert kind = some w ∧ w.IsInteger kind (narrowed kind v).toInt := by
  have kept : kind ≠ .char → narrowed kind v = v := fun other => if_neg fun both => other both.1
  cases kind with
  | byte =>
    simp only [constantFits, Bool.and_eq_true, decide_eq_true_eq] at fits
    rw [kept (by simp)]
    exact ⟨_, by simp [Value.convert, Value.numeric?, Value.ofNumeric, Numeric.word],
      isInteger_byte fits.1 fits.2⟩
  | short =>
    simp only [constantFits, Bool.and_eq_true, decide_eq_true_eq] at fits
    rw [kept (by simp)]
    exact ⟨_, by simp [Value.convert, Value.numeric?, Value.ofNumeric, Numeric.word],
      isInteger_short fits.1 fits.2⟩
  | char =>
    simp only [constantFits, Bool.and_eq_true, decide_eq_true_eq] at fits
    exact ⟨_, by simp [Value.convert, Value.numeric?, Value.ofNumeric, Numeric.word],
      isInteger_char fits.1 fits.2⟩
  | _ => cases fits

/-- The code for a constant leaves variables and store alone. -/
theorem eval_convert_of_fits (fits : constantFits v kind = true) (calls : Calls) (frame : Frame)
    (locals : List Value) (s : Store) :
    ∃ w, eval calls frame (convert (.primitive kind) (.const (.int v))) locals s
        = (.ok (w, locals), s) ∧
      w.primitive? = some kind ∧ w.convert .int = some (.int (narrowed kind v)) := by
  obtain ⟨w, made, integer⟩ := convert_of_fits fits
  refine ⟨w, ?_, integer.ofType, ?_⟩
  · rw [convert, eval, eval]
    change (castTo (.primitive kind) .convert (.int v) >>= fun w => pure (w, locals)
      : Run (Value × List Value)) s = _
    dsimp only [castTo]
    rw [made]
    rfl
  · rw [integer.convert (.inr rfl)]
    exact congrArg (some ∘ Value.int) (Int32.ofInt_toInt _)

end Check

/-- Narrowing of constants. Where a `byte`, a `short` or a `char` is required, the checker accepts
the `int` constants that fit, for which it emits a conversion. When that runs, it gives a value of
the type that is required, and leaves variables and store alone. Converted back to `int`, the value
is the constant, unless a character was required and the constant is half of a surrogate pair; then
it is the code of the replacement character. -/
theorem narrowed_constants (cx : ClassContext) (v : Int32) {kind : Primitive}
    (narrow : IsNarrow kind) (span : Span) (st : BodyState) :
    ((coerce cx (.const (.int v)) .int (.primitive kind) span st).2.diagnostics = st.diagnostics ↔
      constantFits v kind = true) ∧
    (constantFits v kind = true →
      coerce cx (.const (.int v)) .int (.primitive kind) span st
        = (convert (.primitive kind) (.const (.int v)), st) ∧
      ∀ (calls : Calls) (frame : Frame) (locals : List Value) (s : Store),
        ∃ w, eval calls frame (convert (.primitive kind) (.const (.int v))) locals s
            = (.ok (w, locals), s) ∧
          w.primitive? = some kind ∧
          w.convert .int
            = some (.int (if kind = .char ∧ isSurrogate v then 0xfffd else v))) := by
  constructor
  · exact accepts_iff_fits cx narrow span st
  · intro fits
    exact ⟨coerce_of_fits cx fits span st, eval_convert_of_fits fits⟩

namespace Sample

/-- Where a body of a class without members is checked. -/
def bareContext : ClassContext := ⟨⟨{}, [], "Bare"⟩, "Bare", Builtin.object, [], []⟩

/-- The first half of a surrogate pair is accepted as a character, and another one is made of it. -/
theorem surrogate_replaced :
    ¬ ∀ (v : Int32) (kind : Primitive), IsNarrow kind → constantFits v kind = true →
      ∀ (calls : Calls) (frame : Frame) (locals : List Value) (s : Store),
        ∃ w, eval calls frame (convert (.primitive kind) (.const (.int v))) locals s
            = (.ok (w, locals), s) ∧
          w.primitive? = some kind ∧ w.convert .int = some (.int v) := by
  intro kept
  obtain ⟨w, ran, -, same⟩ :=
    kept 0xd800 .char (.inr (.inr rfl)) rfl (.within unlimited) bareFrame [] {}
  have other : eval (.within unlimited) bareFrame
      (convert (.primitive .char) (.const (.int 0xd800))) [] {}
        = (.ok (.char '\ufffd', []), {}) := rfl
  rw [other] at ran
  cases ran
  cases same

/-- The least `byte` and the last code of 16 bits are accepted, and stay what they are. -/
theorem bounds_kept :
    (IsNarrow .byte ∧ constantFits (-128) .byte = true ∧
      ∃ w, eval (.within unlimited) bareFrame (convert (.primitive .byte) (.const (.int (-128))))
          [] {} = (.ok (w, []), {}) ∧ w.convert .int = some (.int (-128))) ∧
    IsNarrow .char ∧ constantFits 0xffff .char = true ∧
      ∃ w, eval (.within unlimited) bareFrame (convert (.primitive .char) (.const (.int 0xffff)))
          [] {} = (.ok (w, []), {}) ∧ w.convert .int = some (.int 0xffff) := by
  have byte : IsNarrow .byte := .inl rfl
  have char : IsNarrow .char := .inr (.inr rfl)
  obtain ⟨-, narrows⟩ := narrowed_constants bareContext (-128) byte ⟨0, 0, 1, 1⟩ {}
  obtain ⟨w, ran, -, back⟩ := (narrows rfl).2 (.within unlimited) bareFrame [] {}
  obtain ⟨-, narrows'⟩ := narrowed_constants bareContext 0xffff char ⟨0, 0, 1, 1⟩ {}
  obtain ⟨w', ran', -, back'⟩ := (narrows' rfl).2 (.within unlimited) bareFrame [] {}
  exact ⟨⟨byte, rfl, w, ran, back⟩, char, rfl, w', ran', back'⟩

end Sample

end Classwright

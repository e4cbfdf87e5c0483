import Classwright.Proofs.Implementing
import Classwright.Proofs.Retraction

/-!
# Hashes of equal values

Values that the builtin `equals` regards as equal have equal hashes, as far as signs of zeros do not
tell them apart: the two zeros of a floating type are equal, and their hashes differ in the highest
bit. A fold of hashes multiplies by an odd number, which leaves the highest bit where it is, however
deep in arrays a zero stands. So it depends on the number of such zeros alone whether two equal
values hash alike.
-/

namespace Classwright

/-! ### Zeros of different signs -/

namespace Binary

variable {f : Format} {x y : Binary f}

/-- Whether these are the two zeros: 1 if they are, and 0 otherwise. -/
def zerosApart (x y : Binary f) : Nat :=
  if x.isZero && y.isZero && x.isNegative != y.isNegative then 1 else 0

theorem zerosApart_self (x : Binary f) : x.zerosApart x = 0 := by
  simp [zerosApart]

theorem eq_zero_of_isZero (isZero : x.magnitude = 0) : x = zero x.isNegative := by
  have fields := x.ofFields_fields
  rw [isZero] at fields
  exact fields.symm

/-- Numbers that compare equal are the same one or the two zeros. -/
theorem eq_or_zeros_of_same (same : x.same y = true) :
    x = y ∨ (∃ negative, x = zero negative ∧ y = zero !negative) ∧ x.zerosApart y = 1 := by
  unfold Binary.same compare? at same
  split at same
  · cases same
  have keys := Int.compare_eq_eq.1 (Option.some.inj (beq_iff_eq.1 same))
  dsimp only at keys
  by_cases sign : x.isNegative = y.isNegative
  · left
    have magnitude : x.magnitude = y.magnitude := by
      rw [sign] at keys
      split at keys <;> omega
    rw [← x.ofFields_fields, sign, magnitude, y.ofFields_fields]
  · right
    -- keys of different signs meet at zero only
    have other : y.isNegative = !x.isNegative := (Bool.not_eq.2 sign).symm
    rw [other] at keys
    have zeros : x.magnitude = 0 ∧ y.magnitude = 0 := by
      generalize x.isNegative = negative at keys
      cases negative <;>
        simp only [Bool.not_true, Bool.not_false, Bool.false_eq_true, if_true, if_false] at keys <;>
        omega
    constructor
    · exact ⟨x.isNegative, eq_zero_of_isZero zeros.1, other ▸ eq_zero_of_isZero zeros.2⟩
    · simp [zerosApart, isZero, zeros, sign]

end Binary

namespace Value

mutual

/-- How many zeros of the one value stand where the other has the zero of the other sign. -/
def zerosApart : Value → Value → Nat
  | .float x, .float y => x.zerosApart y
  | .double x, .double y => x.zerosApart y
  | .array as, .array bs => allZerosApart as bs
  | _, _ => 0

def allZerosApart : List Value → List Value → Nat
  | a :: as, b :: bs => a.zerosApart b + allZerosApart as bs
  | _, _ => 0

end

/-- Equal values are both floating, both arrays, or values that hash alike. -/
theorem equals_cases {a b : Value} (equal : a.equals b = true) :
    (∃ x y : Binary32, a = .float x ∧ b = .float y ∧ x.same y = true) ∨
    (∃ x y : Binary64, a = .double x ∧ b = .double y ∧ x.same y = true) ∨
    (∃ as bs, a = .array as ∧ b = .array bs ∧ allEqual as bs = true) ∨
    Builtin.hash a = Builtin.hash b ∧ a.zerosApart b = 0 := by
  cases a <;> cases b <;> try cases equal
  case float.float x y => exact .inl ⟨x, y, rfl, rfl, equal⟩
  case double.double x y => exact .inr (.inl ⟨x, y, rfl, rfl, equal⟩)
  case array.array as bs => exact .inr (.inr (.inl ⟨as, bs, rfl, rfl, equal⟩))
  case null.null => exact .inr (.inr (.inr ⟨rfl, rfl⟩))
  case object.object o p =>
    have same : o.id = p.id := beq_iff_eq.1 equal
    exact .inr (.inr (.inr ⟨congrArg Int32.ofNat same, rfl⟩))
  all_goals
    have same := beq_iff_eq.1 equal
    subst same
    exact .inr (.inr (.inr ⟨rfl, rfl⟩))

end Value

/-! ### The highest bit of a hash -/

namespace Builtin

/-- As many highest bits, added up. -/
def highBits (n : Nat) : Int32 := .ofNat n * Int32.minValue

theorem highBits_add (m n : Nat) : highBits (m + n) = highBits m + highBits n := by
  unfold highBits
  rw [Int32.ofNat_add, Int32.add_mul]

/-- An odd factor keeps the highest bit. -/
theorem highBits_mul (n : Nat) : highBits n * 31 = highBits n := by
  unfold highBits
  rw [Int32.mul_assoc]
  rfl

/-- Two of them cancel each other. -/
theorem highBits_eq (n : Nat) : highBits n = highBits (n % 2) := by
  have two : highBits 2 = 0 := rfl
  have pairs : ∀ k, highBits (2 * k) = 0 := by
    intro k
    induction k with
    | zero => rfl
    | succ k ih => rw [Nat.mul_succ, highBits_add, ih, two, Int32.add_zero]
  conv => lhs; rw [← Nat.div_add_mod n 2]
  rw [highBits_add, pairs, Int32.zero_add]

theorem highBits_eq_zero_iff (n : Nat) : highBits n = 0 ↔ n % 2 = 0 := by
  rw [highBits_eq]
  rcases Nat.mod_two_eq_zero_or_one n with even | odd
  · rw [even]
    decide
  · rw [odd]
    decide

variable {a b : Value}

theorem hash_float {x y : Binary32} (same : x.same y = true) :
    hash (.float x) = hash (.float y) + highBits (x.zerosApart y) := by
  rcases Binary.eq_or_zeros_of_same same with rfl | ⟨⟨negative, rfl, rfl⟩, apart⟩
  · rw [Binary.zerosApart_self]
    exact (Int32.add_zero _).symm
  · rw [apart]
    cases negative <;> decide +kernel

theorem hash_double {x y : Binary64} (same : x.same y = true) :
    hash (.double x) = hash (.double y) + highBits (x.zerosApart y) := by
  rcases Binary.eq_or_zeros_of_same same with rfl | ⟨⟨negative, rfl, rfl⟩, apart⟩
  · rw [Binary.zerosApart_self]
    exact (Int32.add_zero _).symm
  · rw [apart]
    cases negative <;> decide +kernel

/-- One step of the fold adds the highest bits of the rest and of the member. -/
theorem step_highBits {h k c d : Int32} {m n : Nat} (rest : h = k + highBits m)
    (member : c = d + highBits n) : h * 31 + c = k * 31 + d + highBits (m + n) := by
  have odd := highBits_mul m
  rw [highBits_add]
  grind

mutual

/-- The hashes of equal values differ in the highest bit, once for each pair of zeros that are
apart. -/
theorem hash_of_equals (a b : Value) (equal : a.equals b = true) :
    hash a = hash b + highBits (a.zerosApart b) := by
  rcases Value.equals_cases equal with ⟨x, y, rfl, rfl, same⟩ | ⟨x, y, rfl, rfl, same⟩ |
    ⟨as, bs, rfl, rfl, same⟩ | ⟨same, none_⟩
  · exact hash_float same
  · exact hash_double same
  · have fold := foldHash_of_allEqual as bs same 1 1 0 rfl
    rw [Nat.zero_add] at fold
    exact fold
  · rw [same, none_]
    exact (Int32.add_zero _).symm

/-- The folds may start apart by what the members in front have left. -/
theorem foldHash_of_allEqual (as bs : List Value) (equal : Value.allEqual as bs = true)
    (h k : Int32) (n : Nat) (start : h = k + highBits n) :
    foldHash h (hashes as) = foldHash k (hashes bs) + highBits (n + Value.allZerosApart as bs) := by
  match as, bs with
  | [], [] => exact start
  | a :: as, b :: bs =>
    obtain ⟨first, rest⟩ := Bool.and_eq_true_iff.1 equal
    have step := step_highBits start (hash_of_equals a b first)
    have fold := foldHash_of_allEqual as bs rest _ _ _ step
    rw [Nat.add_assoc] at fold
    exact fold
  | [], _ :: _ => cases equal
  | _ :: _, [] => cases equal

end

/-- Equal values hash alike just if an even number of zeros in them are apart. -/
theorem hash_eq_iff_of_equals (equal : a.equals b = true) :
    hash a = hash b ↔ a.zerosApart b % 2 = 0 := by
  rw [hash_of_equals a b equal, ← highBits_eq_zero_iff]
  constructor
  · intro same
    grind
  · intro none_
    rw [none_, Int32.add_zero]

/-! ### Builtin methods that compare and hash -/

/-- What the builtin methods of a value answer. -/
def answer? : Value → String → List Value → Option (Except Failure Value)
  | .object o, method, args => (ofObject o method args).map .ok
  | v, method, args => ofValue v method args

theorem answer?_equals (a b : Value) :
    answer? a "equals" [b] = some (.ok (.bool (a.equals b))) := by
  cases a with
  | object o =>
    have same : ((b.asObject?.map (·.same o)).getD false) = (Value.object o).equals b := by
      cases b with
      | object p => exact Bool.beq_comm
      | _ => rfl
    rw [← same]
    rfl
  | _ => rfl

theorem answer?_hashCode (a : Value) : answer? a "hashCode" [] = some (.ok (.int (hash a))) := by
  cases a <;> rfl

end Builtin

/-- Whether a call of the method is left to the builtin methods: the value is not null, and neither
the class of an object nor a host type above it has code for the method. -/
def Value.LeavesToBuiltin (s : Store) (method : String) (arity : Nat) : Value → Prop
  | .null => False
  | .object o => (∀ m ∈ o.cls.code.methods, m.name = method → m.params.length ≠ arity) ∧
      s.inheritedNative? o.cls method arity = none
  | _ => True

theorem invokeValue_builtin {v : Value} {s : Store} {method : String} {args : List Value}
    (calls : Calls) (left : v.LeavesToBuiltin s method args.length) (other : method ≠ "call")
    {w : Value} (answered : Builtin.answer? v method args = some (.ok w)) :
    invokeValue calls v method args s = (.ok w, s) := by
  cases v with
  | null => exact left.elim
  | object o =>
    obtain ⟨undeclared, noNative⟩ := left
    obtain ⟨u, own, same⟩ := Option.map_eq_some_iff.1 answered
    cases same
    have passed : o.cls.findMethod s.tables method args = .ok none :=
      LoadedClass.findMethod_eq_none_iff.2 undeclared
    change invokeObject calls o method args s = _
    rw [invokeObject_eq, Store.dispatch, passed]
    dsimp only
    rw [Store.dispatchAbove, noNative]
    dsimp only
    rw [own]
    rfl
  | handler id =>
    dsimp only [Builtin.answer?] at answered
    have run : invokeValue calls (.handler id) method args = Run.ofExcept (.ok w) := by
      unfold invokeValue
      dsimp only
      split
      · exact absurd rfl other
      · exact absurd rfl other
      · rw [answered]
    rw [run]
    rfl
  | _ =>
    dsimp only [Builtin.answer?] at answered
    unfold invokeValue
    dsimp only
    rw [answered]
    rfl

/-- Hashes of equal values. Of two values that the builtin `equals` regards as equal, the builtin
`hashCode` gives the same number if and only if an even number of zeros in them are apart; if there
are none, or no arrays and no floating numbers at all, that is always so. The same holds of calls
that a program makes, where it leaves both methods to the builtin ones. -/
theorem equal_values_hash (a b : Value) :
    (Builtin.answer? a "equals" [b] = some (.ok (.bool true)) →
      ∃ h k : Int32, Builtin.answer? a "hashCode" [] = some (.ok (.int h)) ∧
        Builtin.answer? b "hashCode" [] = some (.ok (.int k)) ∧
        (h = k ↔ a.zerosApart b % 2 = 0)) ∧
    ∀ (calls : Calls) (s : Store), a.LeavesToBuiltin s "equals" 1 →
      a.LeavesToBuiltin s "hashCode" 0 → b.LeavesToBuiltin s "hashCode" 0 →
      invokeValue calls a "equals" [b] s = (.ok (.bool true), s) →
      ∃ h k : Int32, invokeValue calls a "hashCode" [] s = (.ok (.int h), s) ∧
        invokeValue calls b "hashCode" [] s = (.ok (.int k), s) ∧
        (h = k ↔ a.zerosApart b % 2 = 0) := by
  constructor
  · intro answered
    rw [Builtin.answer?_equals] at answered
    have equal : a.equals b = true := by simpa using answered
    exact ⟨Builtin.hash a, Builtin.hash b, Builtin.answer?_hashCode a, Builtin.answer?_hashCode b,
      Builtin.hash_eq_iff_of_equals equal⟩
  · intro calls s compares hashes hashes' ran
    have answers := invokeValue_builtin calls compares (by decide) (Builtin.answer?_equals a b)
    rw [answers] at ran
    have equal : a.equals b = true := by
      cases equal : a.equals b with
      | true => rfl
      | false =>
        rw [equal] at ran
        cases ran
    exact ⟨Builtin.hash a, Builtin.hash b,
      invokeValue_builtin calls hashes (by decide) (Builtin.answer?_hashCode a),
      invokeValue_builtin calls hashes' (by decide) (Builtin.answer?_hashCode b),
      Builtin.hash_eq_iff_of_equals equal⟩

namespace Sample

/-- The two zeros are equal and hash differently. -/
theorem zeros_hash_apart :
    ¬ ∀ a b : Value, Builtin.answer? a "equals" [b] = some (.ok (.bool true)) →
      Builtin.answer? a "hashCode" [] = Builtin.answer? b "hashCode" [] := by
  intro alike
  have same := alike (.double (.zero false)) (.double (.zero true)) rfl
  rw [Builtin.answer?_hashCode, Builtin.answer?_hashCode] at same
  have hashes : Builtin.hash (.double (.zero false)) = Builtin.hash (.double (.zero true)) := by
    simpa using same
  exact absurd hashes (by decide +kernel)

/-- A class without members. -/
def stoneClass : LoadedClass :=
  ⟨0, ⟨Code.formatVersion, "Stone", Builtin.object, [], [], [], [], []⟩, 0, 64⟩

def stone : Value :=
  .object ⟨1, stoneClass⟩

theorem stone_leaves (method : String) (arity : Nat) : stone.LeavesToBuiltin {} method arity := by
  have alone : LoadedClass.supertypes ({} : Store).tables stoneClass = [] :=
    List.length_eq_zero_iff.1 (by decide +kernel)
  constructor
  · exact nofun
  · unfold Store.inheritedNative?
    rw [alone]
    rfl

/-- An object, and two zeros with this sign, one of them in an array of its own. -/
def cairn (negative : Bool) : Value :=
  .array [stone, .float (.zero negative), .array [.double (.zero negative)]]

/-- Two pairs of zeros that are apart make up for each other. An object hashes as itself. -/
theorem cairns_hash_alike :
    (Builtin.answer? (cairn false) "equals" [cairn true] = some (.ok (.bool true)) ∧
      ∃ h, Builtin.answer? (cairn false) "hashCode" [] = some (.ok (.int h)) ∧
        Builtin.answer? (cairn true) "hashCode" [] = some (.ok (.int h))) ∧
    invokeValue (.within unlimited) stone "equals" [stone] {} = (.ok (.bool true), {}) ∧
      ∃ h, invokeValue (.within unlimited) stone "hashCode" [] {} = (.ok (.int h), {}) := by
  have equal : Builtin.answer? (cairn false) "equals" [cairn true] = some (.ok (.bool true)) := by
    have same : (cairn false).equals (cairn true) = true := by decide +kernel
    rw [Builtin.answer?_equals, same]
  obtain ⟨h, k, hash, hash', alike⟩ := (equal_values_hash (cairn false) (cairn true)).1 equal
  have same : h = k := alike.2 (by decide +kernel)
  have ran : invokeValue (.within unlimited) stone "equals" [stone] {} = (.ok (.bool true), {}) :=
    invokeValue_builtin _ (stone_leaves _ _) (by decide) (Builtin.answer?_equals stone stone)
  obtain ⟨n, _, hashed, -⟩ := (equal_values_hash stone stone).2 (.within unlimited) {}
    (stone_leaves _ _) (stone_leaves _ _) (stone_leaves _ _) ran
  exact ⟨⟨equal, h, hash, same ▸ hash'⟩, ran, n, hashed⟩

end Sample

end Classwright

import Classwright.Code.Codec
import Classwright.Proofs.Contents
import Classwright.Proofs.Fractions
import Classwright.Proofs.Numbering

/-!
# Stored classes

A compiled class is stored as the pretty form of a document. What is read from it is the class,
exactly if lists and objects nest in the document as deep as its reader goes: the writer goes
deeper. Slots are counted in 64 bits, and the constants have to be such as are read exactly.
-/

namespace Classwright

namespace Json

mutual

/-- Whether lists and objects nest in the document at most so deep. -/
def nestsWithin (depth : Nat) : Json → Bool
  | array items => match depth with
    | 0 => false
    | depth + 1 => itemsNestWithin depth items
  | object fields => match depth with
    | 0 => false
    | depth + 1 => fieldsNestWithin depth fields
  | _ => true

def itemsNestWithin (depth : Nat) : List Json → Bool
  | [] => true
  | item :: items => item.nestsWithin depth && itemsNestWithin depth items

def fieldsNestWithin (depth : Nat) : List (Option String × Json) → Bool
  | [] => true
  | (_, value) :: fields => value.nestsWithin depth && fieldsNestWithin depth fields

end

section

variable (depth : Nat)

@[simp] theorem nestsWithin_str (s : String) : (str s).nestsWithin depth = true := rfl

@[simp] theorem nestsWithin_nat (n : Nat) : (nat n).nestsWithin depth = true := rfl

@[simp] theorem nestsWithin_bool (b : Bool) : (bool b).nestsWithin depth = true := rfl

@[simp] theorem nestsWithin_null : null.nestsWithin depth = true := rfl

@[simp] theorem nestsWithin_array (items : List Json) :
    (array items).nestsWithin (depth + 1) = itemsNestWithin depth items := rfl

@[simp] theorem nestsWithin_array_zero (items : List Json) :
    (array items).nestsWithin 0 = false := rfl

@[simp] theorem nestsWithin_record (fields : List (String × Json)) :
    (record fields).nestsWithin (depth + 1)
      = fieldsNestWithin depth (fields.map fun f => (some f.1, f.2)) := rfl

@[simp] theorem itemsNestWithin_nil : itemsNestWithin depth [] = true := rfl

@[simp] theorem itemsNestWithin_cons (item : Json) (items : List Json) :
    itemsNestWithin depth (item :: items)
      = (item.nestsWithin depth && itemsNestWithin depth items) := rfl

@[simp] theorem fieldsNestWithin_nil : fieldsNestWithin depth [] = true := rfl

@[simp] theorem fieldsNestWithin_cons (name : Option String) (value : Json)
    (fields : List (Option String × Json)) : fieldsNestWithin depth ((name, value) :: fields)
      = (value.nestsWithin depth && fieldsNestWithin depth fields) := rfl

end

end Json

namespace Decoder

variable {α β : Type}

/-- What the document is decoded to, as long as the document nests no deeper than the decoder
may go. -/
def Restores (decode : Decoder α) (j : Json) (a : α) : Prop :=
  ∀ depth, decode depth j = if j.nestsWithin depth then some a else none

theorem ite_bind {p : Bool} (a : α) (f : α → Option β) :
    ((if p then some a else none) >>= f) = if p then f a else none := by
  cases p <;> rfl

theorem ite_ite {p q : Bool} (a : α) :
    (if p then (if q then some a else none) else none) = if p && q then some a else none := by
  cases p <;> rfl

theorem string_str (depth : Nat) (s : String) : string depth (.str s) = some s := rfl

theorem bool_bool (depth : Nat) (b : Bool) : bool depth (.bool b) = some b := rfl

theorem intIn_int {lo hi i : Int} (low : -2 ^ 63 ≤ lo) (high : hi < 2 ^ 64) (above : lo ≤ i)
    (below : i ≤ hi) (depth : Nat) : intIn lo hi depth (.int i) = some i := by
  have read : (JsonNumber.ofInt i).toInt? = some i :=
    JsonNumber.toInt?_ofInt (by omega) (by omega)
  change Option.filter _ (JsonNumber.ofInt i).toInt? = some i
  rw [read]
  simp [Option.filter, above, below]

theorem nat_nat {n : Nat} (counted : n < UInt64.size) (depth : Nat) :
    nat depth (.nat n) = some n := by
  rw [nat, Json.nat, intIn_int (by decide) (by decide) (by omega) (by omega)]
  rfl

theorem int32_int (v : Int32) (depth : Nat) : int32 depth (.int v.toInt) = some v := by
  rw [int32, intIn_int (by decide) (by decide) (Int32.minValue_le_toInt v) (Int32.toInt_le v)]
  simp

theorem int64_int (v : Int64) (depth : Nat) : int64 depth (.int v.toInt) = some v := by
  rw [int64, intIn_int (by decide) (by decide) (Int64.minValue_le_toInt v) (Int64.toInt_le v)]
  simp

/-- A list is restored if its members are. -/
theorem mapM_restores {decode : Decoder α} {encode : α → Json} {as : List α}
    (h : ∀ a ∈ as, decode.Restores (encode a) a) (depth : Nat) :
    (as.map encode).mapM (decode depth)
      = if Json.itemsNestWithin depth (as.map encode) then some as else none := by
  induction as with
  | nil => rfl
  | cons a as ih =>
    rw [List.map_cons, List.mapM_cons, h a List.mem_cons_self depth,
      ih fun b member => h b (List.mem_cons_of_mem _ member), ite_bind, ite_bind,
      Json.itemsNestWithin]
    exact ite_ite _

theorem list_restores {decode : Decoder α} {encode : α → Json} {as : List α}
    (h : ∀ a ∈ as, decode.Restores (encode a) a) :
    (list decode).Restores (.array (as.map encode)) as := by
  rintro (_ | depth)
  · rfl
  · exact mapM_restores h depth

end Decoder

open Decoder (ite_bind ite_ite string_str bool_bool nat_nat int32_int int64_int mapM_restores
  list_restores)

/-! ### Words -/

theorem Visibility.decode_encode (v : Visibility) (depth : Nat) :
    decode depth v.encode = some v := by
  cases v <;> rfl

theorem TypeRef.decode_encode : (t : TypeRef) → decode.Restores t.encode t
  | void => fun depth => by cases depth <;> rfl
  | primitive kind => by rintro (_ | depth) <;> cases kind <;> rfl
  | named name => by rintro (_ | depth) <;> rfl
  | array element => by
    rintro (_ | depth)
    · rfl
    · change (decode depth element.encode).map array
        = if element.encode.nestsWithin depth && true then some (array element) else none
      rw [decode_encode element depth, Bool.and_true]
      split <;> rfl

namespace Code

theorem UnaryOp.decode_word (o : UnaryOp) (depth : Nat) : decode depth (.str o.word) = some o := by
  cases o <;> rfl

theorem CastMode.decode_word (m : CastMode) (depth : Nat) :
    decode depth (.str m.word) = some m := by
  cases m <;> rfl

theorem decodeBinary_word (o : BinaryOp) (depth : Nat) :
    decodeBinary depth (.str (binaryWord o)) = some o := by
  cases o <;> rfl

/-! ### Constants -/

/-- The constants that are read exactly: all but fractions, of which zero is. -/
def Constant.Exact : Constant → Prop
  | .float v => v = .zero false
  | .double v => v = .zero false
  | _ => True

theorem Constant.decodeFloat_zero (depth : Nat) :
    decodeFloat depth (.ofBinary JsonNumber.floatStyle (.zero false : Binary32))
      = some (.zero false) := by
  have anywhere : ∀ j, decodeFloat depth j = decodeFloat 0 j := fun j => by cases j <;> rfl
  rw [anywhere]
  decide +kernel

theorem Constant.decodeDouble_zero (depth : Nat) :
    decodeDouble depth (.ofBinary JsonNumber.doubleStyle (.zero false : Binary64))
      = some (.zero false) := by
  have anywhere : ∀ j, decodeDouble depth j = decodeDouble 0 j := fun j => by cases j <;> rfl
  rw [anywhere]
  decide +kernel

theorem Constant.decodeChar_singleton (c : Char) (depth : Nat) :
    decodeChar depth (.str (String.singleton c)) = some c := by
  unfold decodeChar
  simp [Decoder.string_str]

theorem Constant.decode_encode : (c : Constant) → c.Exact → decode.Restores c.encode c
  | .null, _ => fun depth => by cases depth <;> rfl
  | .bool b, _ => by rintro (_ | depth) <;> rfl
  | .int v, _ => by
    rintro (_ | depth)
    · rfl
    · change (Decoder.int32 depth (.int v.toInt)).map int = some (int v)
      rw [int32_int]
      rfl
  | .long v, _ => by
    rintro (_ | depth)
    · rfl
    · change (Decoder.int64 depth (.int v.toInt)).map long = some (long v)
      rw [int64_int]
      rfl
  | .float _, rfl => by
    rintro (_ | depth)
    · rfl
    · change (decodeFloat depth
        (.ofBinary JsonNumber.floatStyle (.zero false : Binary32))).map float = _
      rw [decodeFloat_zero]
      rfl
  | .double _, rfl => by
    rintro (_ | depth)
    · rfl
    · change (decodeDouble depth
        (.ofBinary JsonNumber.doubleStyle (.zero false : Binary64))).map double = _
      rw [decodeDouble_zero]
      rfl
  | .char c, _ => by
    rintro (_ | depth)
    · rfl
    · change (decodeChar depth (.str (String.singleton c))).map char = some (char c)
      rw [decodeChar_singleton]
      rfl
  | .str s, _ => by rintro (_ | depth) <;> rfl

/-! ### Expressions -/

end Code

/-- The slot is a number of 64 bits. -/
def Access.Counted : Access → Prop
  | .read _ slot | .write _ slot | .declare slot => slot < UInt64.size
  | _ => True

namespace Code

/-- The slots that are touched are numbers of 64 bits. -/
def AllCounted (accesses : List Access) : Prop := ∀ a ∈ accesses, a.Counted

theorem allCounted_append {xs ys : List Access} :
    AllCounted (xs ++ ys) ↔ AllCounted xs ∧ AllCounted ys := by
  simp only [AllCounted, List.mem_append, or_imp, forall_and]

theorem counted_of_single {a : Access} (h : AllCounted [a]) : a.Counted :=
  h a (List.mem_singleton.2 rfl)

namespace Expr

variable {above : String → Nat → Prop}

theorem encodeList_eq (constant : Constant → Json) (es : List Expr) :
    encodeList constant es = es.map (encode constant) := by
  induction es with
  | nil => rfl
  | cons e es ih => rw [encodeList, ih, List.map_cons]

/-- A variant with a list of operands is decoded two levels deep. -/
theorem restores_tuple {tag : String} {items : List Json} {e : Expr}
    (zero : decode 0 (.record [(tag, .array items)]) = none)
    (one : decode 1 (.record [(tag, .array items)]) = none)
    (more : ∀ depth, decode (depth + 2) (.record [(tag, .array items)])
      = if Json.itemsNestWithin depth items then some e else none) :
    decode.Restores (.record [(tag, .array items)]) e := by
  rintro (_ | _ | depth)
  · exact zero
  · exact one
  · rw [more depth]
    simp

theorem restores_operand {tag : String} {content : Json} {e : Expr}
    (zero : decode 0 (.record [(tag, content)]) = none)
    (more : ∀ depth, decode (depth + 1) (.record [(tag, content)])
      = if content.nestsWithin depth then some e else none) :
    decode.Restores (.record [(tag, content)]) e := by
  rintro (_ | depth)
  · exact zero
  · rw [more depth]
    simp

mutual

theorem decode_encode : (e : Expr) → e.Only Constant.Exact above → AllCounted e.accesses →
    decode.Restores (e.encode Constant.encode) e
  | .const c, exact, _ => by
    refine restores_operand rfl fun depth => ?_
    change (Constant.decode depth c.encode).map const = _
    rw [c.decode_encode exact depth]
    split <;> rfl
  | .var n, _, counted => by
    refine restores_operand rfl fun depth => ?_
    change (Decoder.nat depth (.nat n)).map var = _
    rw [nat_nat (counted_of_single counted)]
    rfl
  | .this, _, _ => by rintro (_ | depth) <;> rfl
  | .field n, _, counted => by
    refine restores_operand rfl fun depth => ?_
    change (Decoder.nat depth (.nat n)).map field = _
    rw [nat_nat (counted_of_single counted)]
    rfl
  | .static n, _, counted => by
    refine restores_operand rfl fun depth => ?_
    change (Decoder.nat depth (.nat n)).map static = _
    rw [nat_nat (counted_of_single counted)]
    rfl
  | .storeVar n e, exact, counted => by
    rw [accesses, allCounted_append] at counted
    refine restores_tuple rfl rfl fun depth => ?_
    change (do
      let slot ← Decoder.nat depth (.nat n)
      return storeVar slot (← decode depth (e.encode Constant.encode))) = _
    rw [nat_nat (counted_of_single counted.2), decode_encode e exact counted.1 depth]
    simp [ite_bind]
  | .storeField n e, exact, counted => by
    rw [accesses, allCounted_append] at counted
    refine restores_tuple rfl rfl fun depth => ?_
    change (do
      let slot ← Decoder.nat depth (.nat n)
      return storeField slot (← decode depth (e.encode Constant.encode))) = _
    rw [nat_nat (counted_of_single counted.2), decode_encode e exact counted.1 depth]
    simp [ite_bind]
  | .storeStatic n e, exact, counted => by
    rw [accesses, allCounted_append] at counted
    refine restores_tuple rfl rfl fun depth => ?_
    change (do
      let slot ← Decoder.nat depth (.nat n)
      return storeStatic slot (← decode depth (e.encode Constant.encode))) = _
    rw [nat_nat (counted_of_single counted.2), decode_encode e exact counted.1 depth]
    simp [ite_bind]
  | .unary o e, exact, counted => by
    rw [accesses] at counted
    refine restores_tuple rfl rfl fun depth => ?_
    change (do
      let op ← UnaryOp.decode depth (.str o.word)
      return unary op (← decode depth (e.encode Constant.encode))) = _
    rw [UnaryOp.decode_word, decode_encode e exact counted depth]
    simp [ite_bind]
  | .binary o l r, exact, counted => by
    rw [accesses, allCounted_append] at counted
    refine restores_tuple rfl rfl fun depth => ?_
    change (do
      let op ← decodeBinary depth (.str (binaryWord o))
      let left ← decode depth (l.encode Constant.encode)
      return binary op left (← decode depth (r.encode Constant.encode))) = _
    rw [decodeBinary_word, decode_encode l exact.1 counted.1 depth,
      decode_encode r exact.2 counted.2 depth]
    simp [ite_bind, ite_and]
  | .and l r, exact, counted => by
    rw [accesses, allCounted_append] at counted
    refine restores_tuple rfl rfl fun depth => ?_
    change (do
      let left ← decode depth (l.encode Constant.encode)
      return Expr.and left (← decode depth (r.encode Constant.encode))) = _
    rw [decode_encode l exact.1 counted.1 depth, decode_encode r exact.2 counted.2 depth]
    simp [ite_bind, ite_and]
  | .or l r, exact, counted => by
    rw [accesses, allCounted_append] at counted
    refine restores_tuple rfl rfl fun depth => ?_
    change (do
      let left ← decode depth (l.encode Constant.encode)
      return Expr.or left (← decode depth (r.encode Constant.encode))) = _
    rw [decode_encode l exact.1 counted.1 depth, decode_encode r exact.2 counted.2 depth]
    simp [ite_bind, ite_and]
  | .conditional c t e, exact, counted => by
    rw [accesses, allCounted_append, allCounted_append] at counted
    refine restores_tuple rfl rfl fun depth => ?_
    change (do
      let condition ← decode depth (c.encode Constant.encode)
      let thenExpr ← decode depth (t.encode Constant.encode)
      return conditional condition thenExpr (← decode depth (e.encode Constant.encode))) = _
    rw [decode_encode c exact.1 counted.1 depth, decode_encode t exact.2.1 counted.2.1 depth,
      decode_encode e exact.2.2 counted.2.2 depth]
    simp [ite_bind, ite_and]
  | .cast t m e, exact, counted => by
    rw [accesses] at counted
    refine restores_operand rfl ?_
    rintro (_ | depth)
    · rfl
    · change (do
        let target ← TypeRef.decode depth t.encode
        let mode ← CastMode.decode depth (.str m.word)
        return cast target mode (← decode depth (e.encode Constant.encode))) = _
      rw [t.decode_encode depth, CastMode.decode_word, decode_encode e exact counted depth]
      simp [ite_bind, ite_and]
  | .invoke receiver m args, exact, counted => by
    rw [accesses, allCounted_append, allCounted_append] at counted
    refine restores_operand rfl ?_
    rintro (_ | _ | depth)
    · rfl
    · -- The arguments nest one level deeper than the receiver.
      change none = _
      simp
    · change (do
        let receiver ← decode (depth + 1) (receiver.encode Constant.encode)
        return invoke receiver m
          (← (encodeList Constant.encode args).mapM (decode depth))) = _
      rw [decode_encode receiver exact.1 counted.1 (depth + 1),
        decode_encodeList args exact.2 counted.2.1 depth]
      simp [ite_bind, ite_and]
  | .invokeSuper m args, exact, counted => by
    rw [accesses, allCounted_append] at counted
    refine restores_operand rfl ?_
    rintro (_ | _ | depth)
    · rfl
    · rfl
    · change (do
        return invokeSuper m (← (encodeList Constant.encode args).mapM (decode depth))) = _
      rw [decode_encodeList args exact.2 counted.1 depth]
      simp [ite_bind]

theorem decode_encodeList : (es : List Expr) → AllOnly Constant.Exact above es →
    AllCounted (allAccesses es) → ∀ depth,
    (encodeList Constant.encode es).mapM (decode depth)
      = if Json.itemsNestWithin depth (encodeList Constant.encode es) then some es else none
  | [], _, _ => fun _ => rfl
  | e :: es, exact, counted => by
    rw [allAccesses, allCounted_append] at counted
    intro depth
    rw [encodeList, List.mapM_cons, decode_encode e exact.1 counted.1 depth,
      decode_encodeList es exact.2 counted.2 depth, ite_bind, ite_bind, Json.itemsNestWithin]
    exact ite_ite _

end

/-- An initial value or a returned value may be absent. -/
theorem nullable_encodeOption {value : Option Expr}
    (exact : ∀ e ∈ value, e.Only Constant.Exact above)
    (counted : ∀ e ∈ value, AllCounted e.accesses) :
    (Decoder.nullable decode).Restores (encodeOption Constant.encode value) value := by
  cases value with
  | none => exact fun _ => rfl
  | some e =>
    intro depth
    have present : Decoder.nullable decode depth (e.encode Constant.encode)
        = (decode depth (e.encode Constant.encode)).map some := by
      cases e <;> rfl
    rw [encodeOption, present, decode_encode e (exact e rfl) (counted e rfl) depth]
    split <;> rfl

end Expr

/-! ### Statements -/

namespace Stmt

variable {above : String → Nat → Prop} {scope : List Nat}

theorem counted_of_expr {e : Expr} (counted : AllCounted ((Stmt.expr e).accesses scope)) :
    AllCounted e.accesses := by
  cases e with
  | storeVar slot value =>
    rw [Stmt.accesses, allCounted_append] at counted
    rw [Expr.accesses, allCounted_append]
    refine ⟨counted.1, fun a member => ?_⟩
    rw [List.mem_singleton.1 member]
    have slotCounted := counted_of_single counted.2
    split at slotCounted <;> exact slotCounted
  | _ => exact counted

theorem restores_content {tag : String} {content : Json} {s : Stmt}
    (zero : decode 0 (.record [(tag, content)]) = none)
    (more : ∀ depth, decode (depth + 1) (.record [(tag, content)])
      = if content.nestsWithin depth then some s else none) :
    decode.Restores (.record [(tag, content)]) s := by
  rintro (_ | depth)
  · exact zero
  · rw [more depth]
    simp

mutual

theorem decode_encode : (s : Stmt) → {scope : List Nat} → s.Only Constant.Exact above →
    AllCounted (s.accesses scope) → decode.Restores (s.encode Constant.encode) s
  | .expr e, _, exact, counted => by
    refine restores_content rfl fun depth => ?_
    change (Expr.decode depth (e.encode Constant.encode)).map expr = _
    rw [e.decode_encode exact (counted_of_expr counted) depth]
    split <;> rfl
  | .ret value, scope, exact, counted => by
    have touched : ∀ e ∈ value, AllCounted e.accesses := by
      rintro e ⟨⟩
      exact counted
    refine restores_content rfl fun depth => ?_
    change (Decoder.nullable Expr.decode depth (encodeOption Constant.encode value)).map ret = _
    rw [Expr.nullable_encodeOption exact touched depth]
    split <;> rfl
  | .throw e, _, exact, counted => by
    refine restores_content rfl fun depth => ?_
    change (Expr.decode depth (e.encode Constant.encode)).map throw = _
    rw [e.decode_encode exact counted depth]
    split <;> rfl
  | .block body, _, exact, counted => by
    rw [accesses] at counted
    refine restores_content rfl ?_
    rintro (_ | depth)
    · rfl
    · change ((encodeList Constant.encode body).mapM (decode depth)).map block = _
      rw [decode_encodeList body exact counted depth, Json.nestsWithin_array]
      split <;> rfl
  | .cond c t e, _, exact, counted => by
    rw [accesses, allCounted_append, allCounted_append] at counted
    refine restores_content rfl ?_
    rintro (_ | _ | depth)
    · rfl
    · change none = _
      simp
    · change (do
        let condition ← Expr.decode (depth + 1) (c.encode Constant.encode)
        let thenBranch ← (encodeList Constant.encode t).mapM (decode depth)
        return cond condition thenBranch
          (← (encodeList Constant.encode e).mapM (decode depth))) = _
      rw [c.decode_encode exact.1 counted.1 (depth + 1),
        decode_encodeList t exact.2.1 counted.2.1 depth,
        decode_encodeList e exact.2.2 counted.2.2 depth]
      simp [ite_bind, ite_and]
  | .loop c body, _, exact, counted => by
    rw [accesses, allCounted_append] at counted
    refine restores_content rfl ?_
    rintro (_ | _ | depth)
    · rfl
    · change none = _
      simp
    · change (do
        let condition ← Expr.decode (depth + 1) (c.encode Constant.encode)
        return loop condition (← (encodeList Constant.encode body).mapM (decode depth))) = _
      rw [c.decode_encode exact.1 counted.1 (depth + 1),
        decode_encodeList body exact.2 counted.2 depth]
      simp [ite_bind, ite_and]

theorem decode_encodeList : (ss : List Stmt) → {scope : List Nat} →
    AllOnly Constant.Exact above ss → AllCounted (allAccesses scope ss) → ∀ depth,
    (encodeList Constant.encode ss).mapM (decode depth)
      = if Json.itemsNestWithin depth (encodeList Constant.encode ss) then some ss else none
  | [], _, _, _ => fun _ => rfl
  | s :: ss, _, exact, counted => by
    rw [allAccesses, allCounted_append] at counted
    intro depth
    rw [encodeList, List.mapM_cons, decode_encode s exact.1 counted.1 depth,
      decode_encodeList ss exact.2 counted.2 depth, ite_bind, ite_bind, Json.itemsNestWithin]
    exact ite_ite _

end

end Stmt

/-! ### Members -/

theorem types_restore (ts : List TypeRef) :
    (Decoder.list TypeRef.decode).Restores (.array (ts.map TypeRef.encode)) ts :=
  list_restores fun t _ => t.decode_encode

theorem body_restores {above : String → Nat → Prop} {scope : List Nat} {body : List Stmt}
    (exact : Stmt.AllOnly Constant.Exact above body)
    (counted : AllCounted (Stmt.allAccesses scope body)) :
    (Decoder.list Stmt.decode).Restores (.array (Stmt.encodeList Constant.encode body)) body := by
  rintro (_ | depth)
  · rfl
  · exact Stmt.decode_encodeList body exact counted depth

theorem strings_restore (ss : List String) :
    (Decoder.list .string).Restores (.array (ss.map Json.str)) ss :=
  list_restores fun _ _ _ => rfl

variable {above : String → Nat → Prop}

theorem Field.decode_encode {f : Field} (exact : f.Only Constant.Exact above)
    (counted : ∀ e ∈ f.init, AllCounted e.accesses) :
    decode.Restores (f.encode Constant.encode) f := by
  rintro (_ | depth)
  · rfl
  · change (do
      let type ← TypeRef.decode depth f.type.encode
      let visibility ← Visibility.decode depth f.visibility.encode
      let init ← Decoder.nullable Expr.decode depth (encodeOption Constant.encode f.init)
      return Field.mk f.name type visibility f.isFinal init) = _
    rw [f.type.decode_encode depth, f.visibility.decode_encode,
      Expr.nullable_encodeOption exact counted depth]
    simp [encode, Visibility.encode, ite_bind, ite_and]

/-- The slots of a body are counted in 64 bits, and so is their number. -/
structure BodyCounted (params : List TypeRef) (locals : Nat) (body : List Stmt) : Prop where
  locals : locals < UInt64.size
  accesses : AllCounted (Stmt.allAccesses (paramScope params) body)

theorem Constructor.decode_encode {k : Constructor}
    (exact : Stmt.AllOnly Constant.Exact above k.body)
    (counted : BodyCounted k.params k.locals k.body) :
    decode.Restores (k.encode Constant.encode) k := by
  rintro (_ | depth)
  · rfl
  · change (do
      let params ← Decoder.list TypeRef.decode depth (.array (k.params.map TypeRef.encode))
      let visibility ← Visibility.decode depth k.visibility.encode
      let locals ← Decoder.nat depth (.nat k.locals)
      let body ← Decoder.list Stmt.decode depth
        (.array (Stmt.encodeList Constant.encode k.body))
      return Constructor.mk params visibility locals body) = _
    rw [types_restore k.params depth, k.visibility.decode_encode, nat_nat counted.locals,
      body_restores exact counted.accesses depth]
    simp [encode, Visibility.encode, ite_bind, ite_and]

/-- A method is read from its document member by member. -/
theorem Method.decode_members (m : Method) (depth : Nat) :
    decode (depth + 1) (m.encode Constant.encode) = (do
      let params ← Decoder.list TypeRef.decode depth (.array (m.params.map TypeRef.encode))
      let returnType ← TypeRef.decode depth m.returnType.encode
      let throws ← Decoder.list .string depth (.array (m.throws.map Json.str))
      let visibility ← Visibility.decode depth m.visibility.encode
      let locals ← Decoder.nat depth (.nat m.locals)
      let body ← Decoder.list Stmt.decode depth
        (.array (Stmt.encodeList Constant.encode m.body))
      return Method.mk m.name params returnType throws visibility locals body) := rfl

theorem Method.decode_encode {m : Method} (exact : Stmt.AllOnly Constant.Exact above m.body)
    (counted : BodyCounted m.params m.locals m.body) :
    decode.Restores (m.encode Constant.encode) m := by
  rintro (_ | depth)
  · rfl
  · rw [m.decode_members, types_restore m.params depth, m.returnType.decode_encode depth,
      strings_restore m.throws depth, m.visibility.decode_encode, nat_nat counted.locals,
      body_restores exact counted.accesses depth]
    simp [encode, Visibility.encode, ite_bind, ite_and]

/-- The slots in the code of a class are counted in 64 bits. -/
structure Class.Counted (c : Class) : Prop where
  fields : ∀ f ∈ c.fields, ∀ e ∈ f.init, AllCounted e.accesses
  statics : ∀ f ∈ c.statics, ∀ e ∈ f.init, AllCounted e.accesses
  constructors : ∀ k ∈ c.constructors, BodyCounted k.params k.locals k.body
  methods : ∀ m ∈ c.methods, BodyCounted m.params m.locals m.body

theorem Class.decode_members (c : Class) (depth : Nat) :
    decode (depth + 1) (c.encode Constant.encode) = (do
      let version ← Decoder.intIn 0 (UInt32.size - 1) depth (.nat c.version)
      let interfaces ← Decoder.list .string depth (.array (c.interfaces.map Json.str))
      let fields ← Decoder.list Field.decode depth
        (.array (c.fields.map (Field.encode Constant.encode)))
      let statics ← Decoder.list Field.decode depth
        (.array (c.statics.map (Field.encode Constant.encode)))
      let constructors ← Decoder.list Constructor.decode depth
        (.array (c.constructors.map (Constructor.encode Constant.encode)))
      let methods ← Decoder.list Method.decode depth
        (.array (c.methods.map (Method.encode Constant.encode)))
      return Class.mk version.toNat c.name c.superclass interfaces fields statics constructors
        methods) := rfl

/-- The document of a class is decoded to the class exactly if it nests no deeper than the decoder
may go. -/
theorem Class.decode_encode {c : Class} (version : c.version < UInt32.size)
    (exact : c.Only Constant.Exact above) (counted : c.Counted) :
    decode.Restores (c.encode Constant.encode) c := by
  have fields := list_restores fun f member =>
    Field.decode_encode (exact.fields f member) (counted.fields f member)
  have statics := list_restores fun f member =>
    Field.decode_encode (exact.statics f member) (counted.statics f member)
  have constructors := list_restores fun k member =>
    Constructor.decode_encode (exact.constructors k member) (counted.constructors k member)
  have methods := list_restores fun m member =>
    Method.decode_encode (exact.methods m member) (counted.methods m member)
  rintro (_ | depth)
  · rfl
  · rw [c.decode_members, Json.nat, Decoder.intIn_int (by decide) (by decide) (by omega) (by omega),
      strings_restore c.interfaces depth, fields depth, statics depth, constructors depth,
      methods depth]
    simp [encode, ite_bind, ite_and]

/-! ### The documents are written as they are read -/

end Code

namespace Json

theorem written_str (s : String) : (str s).Written := rfl

theorem written_nat (n : Nat) : (nat n).Written := JsonNumber.written_ofInt n

theorem allWritten_map {α : Type} {encode : α → Json} {as : List α}
    (h : ∀ a ∈ as, (encode a).Written) : AllWritten (as.map encode) := by
  induction as with
  | nil => trivial
  | cons a as ih =>
    exact ⟨h a List.mem_cons_self, ih fun b member => h b (List.mem_cons_of_mem _ member)⟩

theorem written_texts (ss : List String) : (array (ss.map str)).Written :=
  allWritten_map fun s _ => written_str s

/-- A variant with its content. -/
theorem written_variant {tag : String} {content : Json} (h : content.Written) :
    (record [(tag, content)]).Written := ⟨rfl, h, trivial⟩

end Json

open Json (written_str written_nat written_texts written_variant allWritten_map)

theorem TypeRef.written : (t : TypeRef) → t.encode.Written
  | void => written_str _
  | primitive _ => written_variant (written_str _)
  | named _ => written_variant (written_str _)
  | array element => written_variant element.written

theorem TypeRef.all_written (ts : List TypeRef) : (Json.array (ts.map encode)).Written :=
  allWritten_map fun t _ => t.written

namespace Code

theorem Constant.written : (c : Constant) → c.encode.Written
  | .null => written_str _
  | .bool _ => written_variant trivial
  | .int v => written_variant (JsonNumber.written_ofInt v.toInt)
  | .long v => written_variant (JsonNumber.written_ofInt v.toInt)
  | .float v => written_variant (Json.written_ofBinary _ v)
  | .double v => written_variant (Json.written_ofBinary _ v)
  | .char _ => written_variant (written_str _)
  | .str _ => written_variant (written_str _)

mutual

theorem Expr.written : (e : Expr) → (e.encode Constant.encode).Written
  | .const c => written_variant c.written
  | .var n | .field n | .static n => written_variant (written_nat n)
  | .this => written_str _
  | .storeVar n e | .storeField n e | .storeStatic n e =>
    written_variant ⟨written_nat n, e.written, trivial⟩
  | .unary _ e => written_variant ⟨written_str _, e.written, trivial⟩
  | .binary _ l r => written_variant ⟨written_str _, l.written, r.written, trivial⟩
  | .and l r | .or l r => written_variant ⟨l.written, r.written, trivial⟩
  | .conditional c t e => written_variant ⟨c.written, t.written, e.written, trivial⟩
  | .cast t _ e => written_variant ⟨rfl, t.written, rfl, written_str _, rfl, e.written, trivial⟩
  | .invoke receiver _ args =>
    written_variant ⟨rfl, receiver.written, rfl, written_str _, rfl, Expr.allWritten args, trivial⟩
  | .invokeSuper _ args =>
    written_variant ⟨rfl, written_str _, rfl, Expr.allWritten args, trivial⟩

theorem Expr.allWritten : (es : List Expr) → Json.AllWritten (encodeList Constant.encode es)
  | [] => trivial
  | e :: es => ⟨e.written, Expr.allWritten es⟩

end

theorem Expr.written_option : (value : Option Expr) → (encodeOption Constant.encode value).Written
  | none => trivial
  | some e => e.written

mutual

theorem Stmt.written : (s : Stmt) → (s.encode Constant.encode).Written
  | .expr e | .throw e => written_variant e.written
  | .ret value => written_variant (Expr.written_option value)
  | .block body => written_variant (Stmt.allWritten body)
  | .cond c t e =>
    written_variant ⟨rfl, c.written, rfl, Stmt.allWritten t, rfl, Stmt.allWritten e, trivial⟩
  | .loop c body => written_variant ⟨rfl, c.written, rfl, Stmt.allWritten body, trivial⟩

theorem Stmt.allWritten : (ss : List Stmt) → Json.AllWritten (encodeList Constant.encode ss)
  | [] => trivial
  | s :: ss => ⟨s.written, Stmt.allWritten ss⟩

end

theorem Field.written (f : Field) : (f.encode Constant.encode).Written :=
  ⟨rfl, written_str _, rfl, f.type.written, rfl, written_str _, rfl, trivial, rfl,
    Expr.written_option _, trivial⟩

theorem Constructor.written (k : Constructor) : (k.encode Constant.encode).Written :=
  ⟨rfl, TypeRef.all_written _, rfl, written_str _, rfl, written_nat _, rfl,
    Stmt.allWritten _, trivial⟩

theorem Method.written (m : Method) : (m.encode Constant.encode).Written :=
  ⟨rfl, written_str _, rfl, TypeRef.all_written _, rfl, m.returnType.written, rfl,
    written_texts _, rfl, written_str _, rfl, written_nat _, rfl, Stmt.allWritten _, trivial⟩

theorem Class.written (c : Class) : (c.encode Constant.encode).Written :=
  ⟨rfl, written_nat _, rfl, written_str _, rfl, written_str _, rfl, written_texts _, rfl,
    allWritten_map fun f _ => Field.written f, rfl,
    allWritten_map fun f _ => Field.written f, rfl,
    allWritten_map fun k _ => Constructor.written k, rfl,
    allWritten_map fun m _ => Method.written m, trivial⟩

/-- Whatever constants it has, a stored class is read as its document. -/
theorem Class.ofText?_toText_eq_decode (c : Class) :
    ofText? c.toText = decode Json.maxDepth (c.encode Constant.encode) := by
  rw [ofText?, toText, Json.parse?_pretty c.written, Option.bind_some]

/-- The document of the class nests no deeper than documents may nest that are read. -/
def Class.Readable (c : Class) : Prop :=
  (c.encode Constant.encode).nestsWithin Json.maxDepth = true

instance (c : Class) : Decidable c.Readable := inferInstanceAs (Decidable (_ = true))

/-- What a class was stored as is read as the class, unless it nests too deep. -/
theorem Class.ofText?_toText {c : Class} (version : c.version < UInt32.size)
    (exact : c.Only Constant.Exact above) (counted : c.Counted) :
    ofText? c.toText = if c.Readable then some c else none := by
  rw [c.ofText?_toText_eq_decode, Class.decode_encode version exact counted]
  rfl

end Code

end Classwright

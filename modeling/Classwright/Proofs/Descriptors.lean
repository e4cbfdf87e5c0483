import Classwright.Proofs.Stored
import Classwright.Type.Codec

/-!
# Stored descriptors

A descriptor is stored as the pretty form of a document, from which fields that hold nothing are
left out. It is read back as it was, whatever its names contain, exactly if the arrays in its
signatures nest no deeper than documents may that are read: the writer goes deeper.
-/

namespace Classwright

open Decoder (ite_bind list_restores)
open Code (types_restore strings_restore)

namespace Json

variable (depth : Nat)

theorem fieldsNestWithin_append (xs ys : List (Option String × Json)) :
    fieldsNestWithin depth (xs ++ ys) = (fieldsNestWithin depth xs && fieldsNestWithin depth ys) := by
  induction xs with
  | nil => rfl
  | cons x xs ih => rw [List.cons_append, fieldsNestWithin, fieldsNestWithin, ih, Bool.and_assoc]

theorem itemsNestWithin_map {α : Type} (encode : α → Json) (as : List α) :
    itemsNestWithin depth (as.map encode) = as.all fun a => (encode a).nestsWithin depth := by
  induction as with
  | nil => rfl
  | cons a as ih => rw [List.map_cons, itemsNestWithin, ih, List.all_cons]

theorem string_restored (s : String) : Decoder.string.Restores (str s) s := fun _ => rfl

theorem fieldsWritten_append {xs ys : List (Option String × Json)} (hx : FieldsWritten xs)
    (hy : FieldsWritten ys) : FieldsWritten (xs ++ ys) := by
  induction xs with
  | nil => exact hy
  | cons x xs ih => exact ⟨hx.1, hx.2.1, ih hx.2.2⟩

end Json

/-! ### Members -/

theorem Method.decode_encode (m : Method) : decode.Restores m.encode m := by
  rintro (_ | depth)
  · rfl
  · change (do
      let returnType ← TypeRef.decode depth m.returnType.encode
      let params ← Decoder.list TypeRef.decode depth (.array (m.params.map TypeRef.encode))
      let throws ← Decoder.list .string depth (.array (m.throws.map Json.str))
      let visibility ← Visibility.decode depth m.visibility.encode
      return Method.mk m.name returnType params throws visibility m.isAbstract) = _
    rw [m.returnType.decode_encode depth, types_restore m.params depth,
      strings_restore m.throws depth, m.visibility.decode_encode]
    simp [encode, Visibility.encode, ite_bind, ite_and]

theorem Constructor.decode_encode (k : Constructor) : decode.Restores k.encode k := by
  rintro (_ | depth)
  · rfl
  · change (do
      let params ← Decoder.list TypeRef.decode depth (.array (k.params.map TypeRef.encode))
      let visibility ← Visibility.decode depth k.visibility.encode
      return Constructor.mk params visibility) = _
    rw [types_restore k.params depth, k.visibility.decode_encode]
    simp [encode, Visibility.encode, ite_bind]

theorem TypeKind.decode_word (kind : TypeKind) (depth : Nat) :
    decode depth (.str kind.word) = some kind := by
  cases kind <;> rfl

namespace Descriptor

/-- A list that is left out when it is empty is restored all the same. -/
theorem listField_restores {α : Type} {decode : Decoder α} {encode : α → Json} {as : List α}
    (name : String) (h : ∀ a ∈ as, decode.Restores (encode a) a) (depth : Nat) :
    (if as.isEmpty then some [] else Decoder.list decode depth (.array (as.map encode)))
      = if Json.fieldsNestWithin depth
          ((listField name (as.map encode)).map fun f => (some f.1, f.2))
        then some as else none := by
  cases as with
  | nil => rfl
  | cons a as =>
    rw [list_restores h depth]
    simp [listField]

theorem superclassField_nests (superclass : Option String) (depth : Nat) :
    Json.fieldsNestWithin depth
      ((superclass.map fun s => ("superclass", Json.str s)).toList.map fun f => (some f.1, f.2))
        = true := by
  cases superclass <;> rfl

theorem decode_encode (d : Descriptor) : decode.Restores d.encode d := by
  rintro (_ | depth)
  · rfl
  · have taken : decode (depth + 1) d.encode = do
        let kind ← TypeKind.decode depth (.str d.kind.word)
        let interfaces ← (if d.interfaces.isEmpty then some []
          else Decoder.list .string depth (.array (d.interfaces.map Json.str)))
        let constructors ← (if d.constructors.isEmpty then some []
          else Decoder.list Constructor.decode depth
            (.array (d.constructors.map Constructor.encode)))
        let methods ← Decoder.list Method.decode depth (.array (d.methods.map Method.encode))
        return Descriptor.mk d.name kind d.superclass interfaces constructors methods := by
      -- Each of the three fields may be absent from the document.
      obtain ⟨name, kind, superclass, interfaces, constructors, methods⟩ := d
      cases superclass <;> cases interfaces <;> cases constructors <;> rfl
    have interfaces := listField_restores "interfaces"
      (fun s (_ : s ∈ d.interfaces) depth => Json.string_restored s depth) depth
    have constructors := listField_restores "constructors"
      (fun k (_ : k ∈ d.constructors) => k.decode_encode) depth
    rw [taken, TypeKind.decode_word, interfaces, constructors,
      list_restores (fun m _ => m.decode_encode) depth]
    simp [encode, ite_bind, ite_and, Json.fieldsNestWithin_append, superclassField_nests]

end Descriptor

/-! ### How deep the documents nest -/

namespace TypeRef

/-- How many objects nest in the document of the type. -/
def nesting : TypeRef → Nat
  | void => 0
  | primitive _ => 1
  | named _ => 1
  | array element => element.nesting + 1

theorem nestsWithin_encode : (t : TypeRef) → (depth : Nat) →
    t.encode.nestsWithin depth = decide (t.nesting ≤ depth)
  | void, _ => by simp [encode, nesting]
  | primitive _, 0 | named _, 0 => rfl
  | primitive _, depth + 1 | named _, depth + 1 => by simp [encode, nesting]
  | array element, 0 => by simp [encode, nesting, Json.record, Json.nestsWithin]
  | array element, depth + 1 => by simp [encode, nesting, nestsWithin_encode element depth]

end TypeRef

theorem Method.nestsWithin_encode (m : Method) (depth : Nat) :
    m.encode.nestsWithin (depth + 2)
      = (decide (m.returnType.nesting ≤ depth + 1) && m.params.all (·.nesting ≤ depth)) := by
  simp [encode, Visibility.encode, TypeRef.nestsWithin_encode, Json.itemsNestWithin_map,
    List.all_eq_true.2 fun (_ : String) (_ : _ ∈ m.throws) => rfl]

theorem Constructor.nestsWithin_encode (k : Constructor) (depth : Nat) :
    k.encode.nestsWithin (depth + 2) = k.params.all (·.nesting ≤ depth) := by
  simp [encode, Visibility.encode, TypeRef.nestsWithin_encode, Json.itemsNestWithin_map]

namespace Descriptor

/-- The arrays in the signatures nest so deep at most that the document can be read. Descriptor,
list of members and member are three levels, a list of parameters is one more. -/
def Readable (d : Descriptor) : Prop :=
  (∀ k ∈ d.constructors, ∀ t ∈ k.params, t.nesting + 4 ≤ Json.maxDepth) ∧
    ∀ m ∈ d.methods, m.returnType.nesting + 3 ≤ Json.maxDepth ∧
      ∀ t ∈ m.params, t.nesting + 4 ≤ Json.maxDepth

instance (d : Descriptor) : Decidable d.Readable := inferInstanceAs (Decidable (_ ∧ _))

theorem nestsWithin_listField {name : String} {items : List Json} (depth : Nat) :
    Json.fieldsNestWithin (depth + 1) ((listField name items).map fun f => (some f.1, f.2))
      = Json.itemsNestWithin depth items := by
  cases items with
  | nil => rfl
  | cons item items => simp [listField]

theorem nestsWithin_encode (d : Descriptor) :
    d.encode.nestsWithin Json.maxDepth = decide d.Readable := by
  have names : Json.itemsNestWithin 125 (d.interfaces.map Json.str) = true := by
    rw [Json.itemsNestWithin_map]
    exact List.all_eq_true.2 fun _ _ => rfl
  rw [Bool.eq_iff_iff, decide_eq_true_iff, Readable, Json.maxDepth]
  simp [encode, Json.fieldsNestWithin_append, nestsWithin_listField, superclassField_nests, names,
    Json.itemsNestWithin_map, Method.nestsWithin_encode, Constructor.nestsWithin_encode]

end Descriptor

/-! ### Texts -/

open Json (written_str written_texts allWritten_map fieldsWritten_append)

theorem Method.written (m : Method) : m.encode.Written :=
  ⟨rfl, written_str _, rfl, m.returnType.written, rfl, TypeRef.all_written m.params, rfl,
    written_texts m.throws, rfl, written_str _, rfl, trivial, trivial⟩

theorem Constructor.written (k : Constructor) : k.encode.Written :=
  ⟨rfl, TypeRef.all_written k.params, rfl, written_str _, trivial⟩

namespace Descriptor

theorem listField_written {name : String} {items : List Json} (h : Json.AllWritten items) :
    Json.FieldsWritten ((listField name items).map fun f => (some f.1, f.2)) := by
  cases items with
  | nil => trivial
  | cons item items => exact ⟨rfl, h, trivial⟩

theorem superclassField_written (superclass : Option String) : Json.FieldsWritten
    ((superclass.map fun s => ("superclass", Json.str s)).toList.map fun f => (some f.1, f.2)) := by
  cases superclass with
  | none => trivial
  | some s => exact ⟨rfl, written_str s, trivial⟩

theorem written (d : Descriptor) : d.encode.Written := by
  have interfaces : Json.AllWritten (d.interfaces.map Json.str) := written_texts d.interfaces
  have constructors := allWritten_map fun k (_ : k ∈ d.constructors) => k.written
  have methods := allWritten_map fun m (_ : m ∈ d.methods) => m.written
  change Json.FieldsWritten (List.map _ (_ ++ _ ++ _ ++ _ ++ _))
  simp only [List.map_append]
  exact fieldsWritten_append (fieldsWritten_append (fieldsWritten_append (fieldsWritten_append
    ⟨rfl, written_str _, rfl, written_str _, trivial⟩ (superclassField_written d.superclass))
    (listField_written interfaces)) (listField_written constructors)) ⟨rfl, methods, trivial⟩

/-- A descriptor is read back from its text as it was, exactly if it is readable. -/
theorem ofText?_toText_eq_ite (d : Descriptor) :
    ofText? d.toText = if d.Readable then some d else none := by
  rw [ofText?, toText, Json.parse?_pretty d.written]
  change decode Json.maxDepth d.encode = _
  rw [d.decode_encode, d.nestsWithin_encode]
  simp

end Descriptor

namespace Sample

/-- An interface whose only method answers arrays of so many dimensions. -/
def deep (dims : Nat) : Descriptor where
  name := "Deep"
  kind := .interface
  methods := [{ name := "deep", returnType := (TypeRef.primitive .int).withDims dims }]

/-- The text of a descriptor is not always read. -/
theorem dimensions_lost : ¬∀ d : Descriptor, Descriptor.ofText? d.toText = some d := by
  intro restored
  have unreadable : ¬(deep 124).Readable := by decide +kernel
  have lost := Descriptor.ofText?_toText_eq_ite (deep 124)
  rw [if_neg unreadable, restored] at lost
  cases lost

example : (deep 123).Readable := by decide +kernel

end Sample

end Classwright

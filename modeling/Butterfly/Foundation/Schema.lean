import Butterfly.Foundation.Wire

/-!
# Message types

Which number a field has and what its value means.  What is written for a
message is read back: fields of other numbers are not looked at.
-/

namespace Butterfly.Foundation

def Numbered (fields : List Field) : Prop := ∀ f ∈ fields, f.number ≠ 0

@[simp] theorem numbered_append (fields fields' : List Field) :
    Numbered (fields ++ fields') ↔ Numbered fields ∧ Numbered fields' :=
  List.forall_mem_append

/-! ## Values of one field -/

/-- A type of values; a value of another wire type is ignored. -/
structure Scalar (α : Type) where
  write : α → WireValue
  read : WireValue → Option α
  read_write : ∀ a, read (write a) = some a

namespace Scalar

def bool : Scalar Bool where
  write b := .varint b.toNat
  read
    | .varint n => some (n != 0)
    | _ => none
  read_write b := by cases b <;> rfl

def uint32 : Scalar UInt32 where
  write n := .varint n.toNat
  read
    | .varint n => some (UInt32.ofNat n)
    | _ => none
  read_write n := by simp

def uint64 : Scalar UInt64 where
  write n := .varint n.toNat
  read
    | .varint n => some (UInt64.ofNat n)
    | _ => none
  read_write n := by simp

/-- A negative number is written in 64 bits. -/
def int32 : Scalar Int32 where
  write n := .varint n.toInt64.toUInt64.toNat
  read
    | .varint n => some (UInt64.ofNat n).toInt64.toInt32
    | _ => none
  read_write n := by simp

def string : Scalar String where
  write s := .len s.toByteArray.data.toList
  read
    | .len bytes => String.fromUTF8? bytes.toByteArray
    | _ => none
  read_write s := by
    have hbytes : s.toByteArray.data.toList.toByteArray = s.toByteArray :=
      ByteArray.ext (by rw [List.data_toByteArray, Array.toArray_toList])
    simp only [hbytes]
    exact dif_pos s.isValidUTF8

def enum {α : Type} (toNumber : α → Nat) (ofNumber : Nat → Option α)
    (h : ∀ a, ofNumber (toNumber a % 2 ^ 32) = some a) : Scalar α where
  write a := .varint (toNumber a)
  read
    | .varint n => ofNumber (n % 2 ^ 32)
    | _ => none
  read_write := h

variable {α : Type} (t : Scalar α)

def fields (number : Nat) (values : List α) : List Field :=
  values.map fun a => ⟨number, t.write a⟩

def all (number : Nat) (fields : List Field) : List α :=
  fields.filterMap fun f => if f.number = number then t.read f.value else none

@[simp] theorem all_append (number : Nat) (fields fields' : List Field) :
    t.all number (fields ++ fields') = t.all number fields ++ t.all number fields' :=
  List.filterMap_append

@[simp] theorem all_fields (number : Nat) (values : List α) :
    t.all number (t.fields number values) = values := by
  simp [all, fields, List.filterMap_map, t.read_write]

@[simp] theorem all_fields_ne {β : Type} (u : Scalar β) {number number' : Nat}
    (h : number' ≠ number) (values : List β) :
    t.all number (u.fields number' values) = [] := by
  simp [all, fields, h]

@[simp] theorem lens_fields_ne {number number' : Nat} (h : number' ≠ number)
    (values : List α) : lens number (t.fields number' values) = [] := by
  rw [lens, fields, List.filterMap_map, List.filterMap_eq_nil_iff]
  intro a _
  simp only [Function.comp_apply]
  split
  · rw [if_neg h]
  · rfl

@[simp] theorem numbered_fields {number : Nat} (h : number ≠ 0) (values : List α) :
    Numbered (t.fields number values) := by
  simp [Numbered, fields, h]

end Scalar

/-! ## Messages -/

/-- A type of messages, whose required fields may not all be set. -/
structure MessageType (α : Type) where
  write : α → List Field
  read : List Field → Option α
  complete : α → Prop := fun _ => True
  numbered : ∀ a, Numbered (write a)
  read_write : ∀ a, complete a → read (write a) = some a

namespace MessageType

variable {α : Type} (M : MessageType α)

def bytes (a : α) : Bytes := writeFields (M.write a)

def fields (number : Nat) (messages : List α) : List Field :=
  messages.map fun a => ⟨number, .len (M.bytes a)⟩

def all (pieces : List Bytes) : Option (List α) :=
  pieces.mapM fun bytes => (readFields bytes).bind M.read

/-- The message of a field that is not repeated, which is merged from its pieces. -/
def last : List Bytes → Option (Option α)
  | [] => some none
  | pieces => do
      let parts ← pieces.mapM readFields
      (M.read parts.flatten).map some

def one (pieces : List Bytes) : Option α := (M.last pieces).bind id

variable {M}

theorem readFields_bytes (a : α) : readFields (M.bytes a) = some (M.write a) :=
  readFields_writeFields (M.numbered a)

theorem all_bytes {messages : List α} (h : ∀ a ∈ messages, M.complete a) :
    M.all (messages.map M.bytes) = some messages := by
  induction messages with
  | nil => rfl
  | cons a rest ih =>
      rw [all] at ih ⊢
      rw [List.map_cons, List.mapM_cons, readFields_bytes, Option.bind_some,
        M.read_write a (h a List.mem_cons_self), ih fun b hb => h b (List.mem_cons_of_mem _ hb)]
      rfl

theorem last_bytes {message : Option α} (h : ∀ a ∈ message, M.complete a) :
    M.last (message.toList.map M.bytes) = some message := by
  cases message with
  | none => rfl
  | some a => simp [last, readFields_bytes, M.read_write a (h a rfl)]

theorem one_bytes {a : α} (h : M.complete a) : M.one [M.bytes a] = some a := by
  have hlast : M.last [M.bytes a] = some (some a) :=
    @last_bytes _ M (some a) (by rintro b ⟨⟩; exact h)
  rw [one, hlast]
  rfl

variable (M)

@[simp] theorem lens_fields (number : Nat) (messages : List α) :
    lens number (M.fields number messages) = messages.map M.bytes := by
  simp [lens, fields, List.filterMap_map]

@[simp] theorem lens_fields_ne {number number' : Nat} (h : number' ≠ number)
    (messages : List α) : lens number (M.fields number' messages) = [] := by
  simp [lens, fields, h]

@[simp] theorem all_fields_ne {β : Type} (t : Scalar β) {number number' : Nat}
    (h : number' ≠ number) (messages : List α) :
    t.all number (M.fields number' messages) = [] := by
  simp [Scalar.all, fields, h]

@[simp] theorem numbered_fields {number : Nat} (h : number ≠ 0) (messages : List α) :
    Numbered (M.fields number messages) := by
  simp [Numbered, fields, h]

end MessageType

@[simp] theorem getLast?_toList {α : Type} (a : Option α) : a.toList.getLast? = a := by
  cases a <;> rfl

end Butterfly.Foundation

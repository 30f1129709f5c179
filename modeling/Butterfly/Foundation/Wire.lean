import Mathlib

/-!
# The protocol buffers wire format

A message is a sequence of fields, each a number with a value of one of four
wire types; a group is skipped.  What a field means is up to a schema, and a
field that the schema does not know, or knows with another wire type, is ignored.
-/

namespace Butterfly.Foundation

abbrev Bytes := List UInt8

/-! ## Varints -/

def varintFrom : Nat → Nat → Bytes
  | 0, n => [UInt8.ofNat n]
  | fuel + 1, n =>
      if n < 128 then [UInt8.ofNat n]
      else UInt8.ofNat (n % 128 + 128) :: varintFrom fuel (n / 128)

/-- Seven bits a byte, the low ones first; all bytes but the last are marked. -/
def varint (n : Nat) : Bytes := varintFrom n n

def readVarint : Bytes → Option (Nat × Bytes)
  | [] => none
  | b :: rest =>
      if b.toNat < 128 then some (b.toNat, rest)
      else (readVarint rest).map fun (n, rest) => (b.toNat - 128 + 128 * n, rest)

theorem readVarint_varintFrom {fuel n : Nat} (h : n ≤ fuel) (rest : Bytes) :
    readVarint (varintFrom fuel n ++ rest) = some (n, rest) := by
  induction fuel generalizing n with
  | zero =>
      obtain rfl : n = 0 := by omega
      rfl
  | succ fuel ih =>
      unfold varintFrom
      split
      · next hsmall =>
          have hbyte : (UInt8.ofNat n).toNat = n := by
            rw [UInt8.toNat_ofNat']
            omega
          simp [readVarint, hbyte, hsmall]
      · next hbig =>
          have hbyte : (UInt8.ofNat (n % 128 + 128)).toNat = n % 128 + 128 := by
            rw [UInt8.toNat_ofNat']
            omega
          have hlarge : ¬(n % 128 + 128 < 128) := by omega
          have hsplit : n % 128 + 128 - 128 + 128 * (n / 128) = n := by omega
          simp only [List.cons_append, readVarint, hbyte, hlarge, if_false,
            ih (show n / 128 ≤ fuel by omega), Option.map_some, hsplit]

theorem readVarint_varint (n : Nat) (rest : Bytes) :
    readVarint (varint n ++ rest) = some (n, rest) :=
  readVarint_varintFrom (Nat.le_refl n) rest

theorem varint_ne_nil (n : Nat) : varint n ≠ [] := by
  unfold varint
  cases n with
  | zero => simp [varintFrom]
  | succ n =>
      unfold varintFrom
      split <;> simp

/-! ## Fields -/

inductive WireValue where
  | varint (n : Nat)
  | fixed64 (bytes : Vector UInt8 8)
  | len (bytes : Bytes)
  | fixed32 (bytes : Vector UInt8 4)
  deriving DecidableEq

def WireValue.wireType : WireValue → Nat
  | .varint _ => 0
  | .fixed64 _ => 1
  | .len _ => 2
  | .fixed32 _ => 5

def WireValue.write : WireValue → Bytes
  | .varint n => Foundation.varint n
  | .fixed64 bytes => bytes.toList
  | .len bytes => Foundation.varint bytes.length ++ bytes
  | .fixed32 bytes => bytes.toList

structure Field where
  number : Nat
  value : WireValue
  deriving DecidableEq

def Field.write (f : Field) : Bytes :=
  varint (f.number * 8 + f.value.wireType) ++ f.value.write

def writeFields (fields : List Field) : Bytes := fields.flatMap Field.write

/-- The first `size` bytes and the rest. -/
def readFixed (size : Nat) (bytes : Bytes) : Option (Vector UInt8 size × Bytes) :=
  if size ≤ bytes.length then
    some (Vector.ofFn fun i => bytes.getD i 0, bytes.drop size)
  else none

def readValue (wireType : Nat) (bytes : Bytes) : Option (WireValue × Bytes) :=
  match wireType with
  | 0 => (readVarint bytes).map fun (n, rest) => (.varint n, rest)
  | 1 => (readFixed 8 bytes).map fun (v, rest) => (.fixed64 v, rest)
  | 2 => do
      let (size, rest) ← readVarint bytes
      if size ≤ rest.length then some (.len (rest.take size), rest.drop size) else none
  | 5 => (readFixed 4 bytes).map fun (v, rest) => (.fixed32 v, rest)
  | _ => none

/--
Read the fields of a message.  `groups` has the numbers of the groups that are
open: what stands inside a group is skipped.
-/
def readLoop : Nat → List Nat → Bytes → Option (List Field)
  | _, [], [] => some []
  | _, _ :: _, [] => none
  | 0, _, _ => none
  | fuel + 1, groups, bytes => do
      let (tag, rest) ← readVarint bytes
      if tag / 8 = 0 then none
      else if tag % 8 = 3 then readLoop fuel (tag / 8 :: groups) rest
      else if tag % 8 = 4 then
        match groups with
        | [] => none
        | number :: groups => if number = tag / 8 then readLoop fuel groups rest else none
      else do
        let (value, rest) ← readValue (tag % 8) rest
        let fields ← readLoop fuel groups rest
        some (if groups = [] then ⟨tag / 8, value⟩ :: fields else fields)

def readFields (bytes : Bytes) : Option (List Field) := readLoop bytes.length [] bytes

/-! ## What is written can be read -/

theorem readFixed_toList {size : Nat} (v : Vector UInt8 size) (rest : Bytes) :
    readFixed size (v.toList ++ rest) = some (v, rest) := by
  have hvector : (Vector.ofFn fun i : Fin size => (v.toList ++ rest).getD i 0) = v := by
    apply Vector.ext
    intro i hi
    have hlt : i < v.toList.length := by simpa using hi
    rw [Vector.getElem_ofFn, List.getD, List.getElem?_append_left hlt]
    simp [hi]
  have hdrop : (v.toList ++ rest).drop size = rest := List.drop_left' (by simp)
  rw [readFixed, if_pos (by simp), hvector, hdrop]

theorem readValue_write (value : WireValue) (rest : Bytes) :
    readValue value.wireType (value.write ++ rest) = some (value, rest) := by
  cases value with
  | varint n => simp [readValue, WireValue.wireType, WireValue.write, readVarint_varint]
  | fixed64 bytes =>
      simp [readValue, WireValue.wireType, WireValue.write, readFixed_toList]
  | len bytes =>
      simp [readValue, WireValue.wireType, WireValue.write, readVarint_varint]
  | fixed32 bytes =>
      simp [readValue, WireValue.wireType, WireValue.write, readFixed_toList]

theorem WireValue.wireType_cases (value : WireValue) :
    value.wireType < 8 ∧ value.wireType ≠ 3 ∧ value.wireType ≠ 4 := by
  cases value <;> simp [WireValue.wireType]

theorem readLoop_write {fields : List Field} (hfields : ∀ f ∈ fields, f.number ≠ 0)
    {fuel : Nat} (hfuel : (writeFields fields).length ≤ fuel) :
    readLoop fuel [] (writeFields fields) = some fields := by
  induction fields generalizing fuel with
  | nil =>
      change readLoop fuel [] [] = some []
      cases fuel <;> rfl
  | cons f fields ih =>
      have hcons : writeFields (f :: fields) = f.write ++ writeFields fields := rfl
      have hne : f.write ≠ [] := by simp [Field.write, varint_ne_nil]
      have hpos : 0 < f.write.length := List.length_pos_iff.mpr hne
      rw [hcons, List.length_append] at hfuel
      obtain ⟨fuel, rfl⟩ : ∃ n, fuel = n + 1 := ⟨fuel - 1, by omega⟩
      obtain ⟨hsmall, hstart, hend⟩ := f.value.wireType_cases
      have hnumber : f.number ≠ 0 := hfields f List.mem_cons_self
      have hdiv : (f.number * 8 + f.value.wireType) / 8 = f.number := by omega
      have hmod : (f.number * 8 + f.value.wireType) % 8 = f.value.wireType := by omega
      have hrest := ih (fun f hf => hfields f (List.mem_cons_of_mem _ hf))
        (show (writeFields fields).length ≤ fuel by omega)
      have htag : f.write ++ writeFields fields = varint (f.number * 8 + f.value.wireType) ++
          (f.value.write ++ writeFields fields) := by
        rw [Field.write, List.append_assoc]
      obtain ⟨b, tail, hbytes⟩ := List.exists_cons_of_ne_nil
        (show f.write ++ writeFields fields ≠ [] by simp [hne])
      have hloop : readLoop (fuel + 1) [] (f.write ++ writeFields fields) = (do
          let (tag, rest) ← readVarint (f.write ++ writeFields fields)
          if tag / 8 = 0 then none
          else if tag % 8 = 3 then readLoop fuel (tag / 8 :: []) rest
          else if tag % 8 = 4 then none
          else do
            let (value, rest) ← readValue (tag % 8) rest
            let fields ← readLoop fuel [] rest
            some (⟨tag / 8, value⟩ :: fields)) := by
        rw [hbytes]
        rfl
      rw [hcons, hloop, htag, readVarint_varint]
      simp only [Option.bind_eq_bind, Option.bind_some, hdiv, hmod, hnumber, hstart, hend,
        if_false, readValue_write, hrest]

theorem readFields_writeFields {fields : List Field}
    (hfields : ∀ f ∈ fields, f.number ≠ 0) :
    readFields (writeFields fields) = some fields :=
  readLoop_write hfields (Nat.le_refl _)

/-! ## Fields by number -/

def lens (number : Nat) (fields : List Field) : List Bytes :=
  fields.filterMap fun f =>
    match f.value with
    | .len bytes => if f.number = number then some bytes else none
    | _ => none

@[simp] theorem lens_append (number : Nat) (fields fields' : List Field) :
    lens number (fields ++ fields') = lens number fields ++ lens number fields' :=
  List.filterMap_append

def varints (number : Nat) (fields : List Field) : List Nat :=
  fields.filterMap fun f =>
    match f.value with
    | .varint n => if f.number = number then some n else none
    | _ => none

/--
An optional submessage.  Several occurrences are merged: the fields of one
follow the fields of the other.
-/
def submessage (number : Nat) (fields : List Field) : Option (Option (List Field)) :=
  match lens number fields with
  | [] => some none
  | pieces => (pieces.mapM readFields).map fun parts => some parts.flatten

end Butterfly.Foundation

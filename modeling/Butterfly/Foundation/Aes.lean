import Mathlib

/-!
# AES-256

The block cipher of FIPS 197.  Every layer is a permutation of the blocks, and
decryption runs the inverse layers in the other order.
-/

namespace Butterfly.Foundation.Aes

abbrev Block := Vector UInt8 16

/-! ## Exclusive or -/

theorem xor_xor_self (a b : UInt8) : a ^^^ (a ^^^ b) = b := by
  rw [← UInt8.xor_assoc, UInt8.xor_self, UInt8.zero_xor]

theorem xor_left_comm (a b c : UInt8) : a ^^^ (b ^^^ c) = b ^^^ (a ^^^ c) := by
  rw [← UInt8.xor_assoc, UInt8.xor_comm a, UInt8.xor_assoc]

/-! ## Bytes -/

def lookUp (rows : List Nat) (b : UInt8) : UInt8 :=
  UInt8.ofNat ((rows.getD (b.toNat / 16) 0) >>> (8 * (15 - b.toNat % 16)))

def sBox : List Nat :=
  [0x637c777bf26b6fc53001672bfed7ab76, 0xca82c97dfa5947f0add4a2af9ca472c0,
   0xb7fd9326363ff7cc34a5e5f171d83115, 0x04c723c31896059a071280e2eb27b275,
   0x09832c1a1b6e5aa0523bd6b329e32f84, 0x53d100ed20fcb15b6acbbe394a4c58cf,
   0xd0efaafb434d338545f9027f503c9fa8, 0x51a3408f929d38f5bcb6da2110fff3d2,
   0xcd0c13ec5f974417c4a77e3d645d1973, 0x60814fdc222a908846eeb814de5e0bdb,
   0xe0323a0a4906245cc2d3ac629195e479, 0xe7c8376d8dd54ea96c56f4ea657aae08,
   0xba78252e1ca6b4c6e8dd741f4bbd8b8a, 0x703eb5664803f60e613557b986c11d9e,
   0xe1f8981169d98e949b1e87e9ce5528df, 0x8ca1890dbfe6426841992d0fb054bb16]

def inverseSBox : List Nat :=
  [0x52096ad53036a538bf40a39e81f3d7fb, 0x7ce339829b2fff87348e4344c4dee9cb,
   0x547b9432a6c2233dee4c950b42fac34e, 0x082ea16628d924b2765ba2496d8bd125,
   0x72f8f66486689816d4a45ccc5d65b692, 0x6c704850fdedb9da5e154657a78d9d84,
   0x90d8ab008cbcd30af7e45805b8b34506, 0xd02c1e8fca3f0f02c1afbd0301138a6b,
   0x3a9111414f67dcea97f2cfcef0b4e673, 0x96ac7422e7ad3585e2f937e81c75df6e,
   0x47f11a711d29c5896fb7620eaa18be1b, 0xfc563e4bc6d279209adbc0fe78cd5af4,
   0x1fdda8338807c731b11210592780ec5f, 0x60517fa919b54a0d2de57a9f93c99cef,
   0xa0e03b4dae2af5b0c8ebbb3c83539961, 0x172b047eba77d626e169146355210c7d]

theorem inverseSBox_sBox : ∀ i : Fin 256,
    lookUp inverseSBox (lookUp sBox (UInt8.ofNat i)) = UInt8.ofNat i ∧
      lookUp sBox (lookUp inverseSBox (UInt8.ofNat i)) = UInt8.ofNat i := by
  decide +kernel

def subByte : Equiv.Perm UInt8 where
  toFun := lookUp sBox
  invFun := lookUp inverseSBox
  left_inv b := by simpa using (inverseSBox_sBox ⟨b.toNat, b.toNat_lt⟩).1
  right_inv b := by simpa using (inverseSBox_sBox ⟨b.toNat, b.toNat_lt⟩).2

/-- Multiplication by `x` in the field of the bytes. -/
def xtime (b : UInt8) : UInt8 := (b <<< 1) ^^^ if b.toNat.testBit 7 then 27 else 0

theorem xtime_xor (a b : UInt8) : xtime (a ^^^ b) = xtime a ^^^ xtime b := by
  have hshift : (a ^^^ b) <<< 1 = (a <<< 1) ^^^ (b <<< 1) := by
    rw [← UInt8.toBitVec_inj]
    simp [BitVec.shiftLeft_xor_distrib]
  unfold xtime
  rw [UInt8.toNat_xor, Nat.testBit_xor, hshift]
  cases a.toNat.testBit 7 <;> cases b.toNat.testBit 7 <;>
    simp [UInt8.xor_assoc, UInt8.xor_comm, xor_left_comm]

/-! ## Columns -/

/-- The first byte of a column times the matrix of `MixColumns`. -/
def mixByte (a b c d : UInt8) : UInt8 := a ^^^ (a ^^^ b ^^^ c ^^^ d) ^^^ xtime (a ^^^ b)

/-- The difference of two neighbours in the column that is mixed to `a`, `b`, `c`, `d`. -/
def unmixedPair (a b c d : UInt8) : UInt8 :=
  a ^^^ b ^^^ xtime (a ^^^ c ^^^ xtime (a ^^^ b ^^^ c ^^^ d))

def unmixByte (a b c d : UInt8) : UInt8 :=
  a ^^^ (a ^^^ b ^^^ c ^^^ d) ^^^ xtime (unmixedPair a b c d)

section Columns

variable (a b c d : UInt8)

theorem sum_mixByte :
    mixByte a b c d ^^^ mixByte b c d a ^^^ mixByte c d a b ^^^ mixByte d a b c =
      a ^^^ b ^^^ c ^^^ d := by
  simp only [mixByte, xtime_xor, UInt8.xor_assoc, UInt8.xor_comm, xor_left_comm, xor_xor_self,
    UInt8.xor_self, UInt8.xor_zero]

theorem unmixedPair_mixByte :
    unmixedPair (mixByte a b c d) (mixByte b c d a) (mixByte c d a b) (mixByte d a b c) =
      a ^^^ b := by
  have hopposite : mixByte a b c d ^^^ mixByte c d a b ^^^ xtime (a ^^^ b ^^^ c ^^^ d) =
      a ^^^ c := by
    simp only [mixByte, xtime_xor, UInt8.xor_comm, xor_left_comm, xor_xor_self,
      UInt8.xor_self, UInt8.xor_zero]
  rw [unmixedPair, sum_mixByte, hopposite]
  simp only [mixByte, xtime_xor, UInt8.xor_comm, xor_left_comm, xor_xor_self, UInt8.xor_self,
    UInt8.xor_zero]

theorem unmixByte_mixByte :
    unmixByte (mixByte a b c d) (mixByte b c d a) (mixByte c d a b) (mixByte d a b c) = a := by
  rw [unmixByte, sum_mixByte, unmixedPair_mixByte]
  simp only [mixByte, UInt8.xor_comm, xor_left_comm, xor_xor_self, UInt8.xor_self,
    UInt8.xor_zero]

theorem unmixedPair_xor : unmixedPair a b c d ^^^ unmixedPair b c d a =
    a ^^^ c ^^^ xtime (a ^^^ b ^^^ c ^^^ d) := by
  simp only [unmixedPair, xtime_xor, UInt8.xor_assoc, UInt8.xor_comm, xor_left_comm,
    xor_xor_self, UInt8.xor_self, UInt8.zero_xor]

theorem unmixByte_xor : unmixByte a b c d ^^^ unmixByte b c d a = unmixedPair a b c d := by
  have hpairs : unmixByte a b c d ^^^ unmixByte b c d a =
      a ^^^ b ^^^ xtime (unmixedPair a b c d ^^^ unmixedPair b c d a) := by
    simp only [unmixByte, xtime_xor, UInt8.xor_assoc, UInt8.xor_comm, xor_left_comm,
      xor_xor_self]
  rw [hpairs, unmixedPair_xor, unmixedPair]

theorem sum_unmixByte :
    unmixByte a b c d ^^^ unmixByte b c d a ^^^ unmixByte c d a b ^^^ unmixByte d a b c =
      a ^^^ b ^^^ c ^^^ d := by
  rw [unmixByte_xor, UInt8.xor_assoc, unmixByte_xor]
  simp only [unmixedPair, xtime_xor, UInt8.xor_comm, xor_left_comm, UInt8.xor_self,
    UInt8.xor_zero]

theorem mixByte_unmixByte :
    mixByte (unmixByte a b c d) (unmixByte b c d a) (unmixByte c d a b) (unmixByte d a b c) =
      a := by
  rw [mixByte, sum_unmixByte, unmixByte_xor]
  simp only [unmixByte, UInt8.xor_comm, xor_left_comm, xor_xor_self, UInt8.xor_self,
    UInt8.xor_zero]

end Columns

/-! ## Layers -/

def subBytes : Equiv.Perm Block where
  toFun x := x.map subByte
  invFun x := x.map subByte.symm
  left_inv x := by simp [Function.comp_def]
  right_inv x := by simp [Function.comp_def]

def shiftRows : Equiv.Perm Block where
  toFun x := Vector.ofFn fun i => x[5 * i.val % 16]
  invFun x := Vector.ofFn fun i => x[13 * i.val % 16]
  left_inv x := by
    ext i hi
    have hsame : 5 * (13 * i % 16) % 16 = i := by omega
    simp only [Vector.getElem_ofFn, hsame]
  right_inv x := by
    ext i hi
    have hsame : 13 * (5 * i % 16) % 16 = i := by omega
    simp only [Vector.getElem_ofFn, hsame]

/-- The byte `offset` rows below the byte `i` of a block, in the same column. -/
def below (x : Block) (i offset : Nat) (hi : i < 16) : UInt8 :=
  x[i / 4 * 4 + (i + offset) % 4]

theorem below_zero (x : Block) {i : Nat} (hi : i < 16) : below x i 0 hi = x[i] := by
  have hsame : i / 4 * 4 + (i + 0) % 4 = i := by omega
  simp only [below, hsame]

def onColumns (f : UInt8 → UInt8 → UInt8 → UInt8 → UInt8) (x : Block) : Block :=
  Vector.ofFn fun i => f (below x i 0 i.isLt) (below x i 1 i.isLt) (below x i 2 i.isLt)
    (below x i 3 i.isLt)

theorem getElem_onColumns (f : UInt8 → UInt8 → UInt8 → UInt8 → UInt8) (x : Block) {i : Nat}
    (hi : i < 16) : (onColumns f x)[i] =
      f (below x i 0 hi) (below x i 1 hi) (below x i 2 hi) (below x i 3 hi) := by
  rw [onColumns, Vector.getElem_ofFn]

theorem below_below (x : Block) {i j : Nat} (offset offset' : Nat) (hi : i < 16) (hj : j < 16)
    (hsame : j = i / 4 * 4 + (i + offset) % 4) :
    below x j offset' hj = below x i (offset + offset') hi := by
  have hrow : j / 4 * 4 + (j + offset') % 4 = i / 4 * 4 + (i + (offset + offset')) % 4 := by
    omega
  simp only [below, hrow]

theorem below_onColumns (f : UInt8 → UInt8 → UInt8 → UInt8 → UInt8) (x : Block) {i : Nat}
    (offset : Nat) (hi : i < 16) :
    below (onColumns f x) i offset hi =
      f (below x i offset hi) (below x i (offset + 1) hi) (below x i (offset + 2) hi)
        (below x i (offset + 3) hi) := by
  rw [below, getElem_onColumns, below_below x offset 0 hi _ rfl, below_below x offset 1 hi _ rfl,
    below_below x offset 2 hi _ rfl, below_below x offset 3 hi _ rfl, Nat.add_zero]

theorem below_add_four (x : Block) {i : Nat} (offset : Nat) (hi : i < 16) :
    below x i (offset + 4) hi = below x i offset hi := by
  have hsame : (i + (offset + 4)) % 4 = (i + offset) % 4 := by omega
  simp only [below, hsame]

theorem onColumns_onColumns {f g : UInt8 → UInt8 → UInt8 → UInt8 → UInt8}
    (h : ∀ a b c d, g (f a b c d) (f b c d a) (f c d a b) (f d a b c) = a) (x : Block) :
    onColumns g (onColumns f x) = x := by
  ext i hi
  have hfour : below x i 4 hi = below x i 0 hi := below_add_four x 0 hi
  have hfive : below x i 5 hi = below x i 1 hi := below_add_four x 1 hi
  have hsix : below x i 6 hi = below x i 2 hi := below_add_four x 2 hi
  simp only [getElem_onColumns, below_onColumns, Nat.reduceAdd, hfour, hfive, hsix]
  rw [h, below_zero]

def mixColumns : Equiv.Perm Block where
  toFun := onColumns mixByte
  invFun := onColumns unmixByte
  left_inv := onColumns_onColumns unmixByte_mixByte
  right_inv := onColumns_onColumns mixByte_unmixByte

def addRoundKey (key : Block) : Equiv.Perm Block where
  toFun x := Vector.zipWith (· ^^^ ·) x key
  invFun x := Vector.zipWith (· ^^^ ·) x key
  left_inv x := by
    ext i hi
    simp
  right_inv x := by
    ext i hi
    simp

/-! ## Keys -/

abbrev Word := List UInt8

structure Schedule where
  words : List Word
  constant : UInt8 := 1

def Schedule.start (key : List UInt8) : Schedule :=
  { words := ((List.range 8).map fun i => (key.drop (4 * i)).take 4).reverse }

def Schedule.round (s : Schedule) : Schedule :=
  let next := fun (words : List Word) (change : Word → Word) =>
    List.zipWith (· ^^^ ·) (words.getD 7 []) (change (words.headD [])) :: words
  let rotate := fun (w : Word) =>
    ((w.rotate 1).map subByte).modifyHead (· ^^^ s.constant)
  let words := next s.words rotate
  let words := next (next (next words id) id) id
  let words := next words (List.map subByte)
  { words := next (next (next words id) id) id, constant := xtime s.constant }

def roundKeys (key : List UInt8) : List Block :=
  let bytes := ((Schedule.round^[7] (Schedule.start key)).words.reverse).flatten
  (List.range 15).map fun i => Vector.ofFn fun j => bytes.getD (16 * i + j) 0

/-! ## The cipher -/

/-- All rounds but the first key; the last one does not mix the columns. -/
def rounds : List Block → Equiv.Perm Block
  | [] => .refl _
  | [key] => (subBytes.trans shiftRows).trans (addRoundKey key)
  | key :: keys =>
      (((subBytes.trans shiftRows).trans mixColumns).trans (addRoundKey key)).trans (rounds keys)

def cipher (key : List UInt8) : Equiv.Perm Block :=
  match roundKeys key with
  | [] => .refl _
  | first :: keys => (addRoundKey first).trans (rounds keys)

def encrypt (key : List UInt8) (x : Block) : Block := cipher key x

def decrypt (key : List UInt8) (x : Block) : Block := (cipher key).symm x

theorem dec_enc (key : List UInt8) (x : Block) : decrypt key (encrypt key x) = x := by
  rw [decrypt, encrypt, Equiv.symm_apply_apply]

theorem enc_dec (key : List UInt8) (x : Block) : encrypt key (decrypt key x) = x := by
  rw [decrypt, encrypt, Equiv.apply_symm_apply]

/-- The example of FIPS 197 for a key of 256 bits. -/
example :
    encrypt ((List.range 32).map UInt8.ofNat) (Vector.ofFn fun i => UInt8.ofNat (17 * i)) =
      #v[142, 162, 183, 202, 81, 103, 69, 191, 234, 252, 73, 144, 75, 73, 96, 137] := by
  decide +kernel

end Butterfly.Foundation.Aes

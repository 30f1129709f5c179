import Mathlib

/-!
# Cipher block chaining

A block cipher chained over a list of blocks, in both directions, and the cut of
a byte string into blocks.
-/

namespace Butterfly.Foundation

structure BlockCipher (β : Type) where
  enc : β → β
  dec : β → β
  mix : β → β → β
  dec_enc : ∀ x, dec (enc x) = x
  enc_dec : ∀ x, enc (dec x) = x
  mix_mix : ∀ x y, mix (mix x y) y = x
  mix_comm : ∀ x y, mix x y = mix y x

namespace BlockCipher

variable {β : Type} (C : BlockCipher β)

/-! ## The two directions -/

def cbcEnc (iv : β) : List β → List β
  | [] => []
  | b :: bs => C.enc (C.mix b iv) :: cbcEnc (C.enc (C.mix b iv)) bs

def cbcDec (iv : β) : List β → List β
  | [] => []
  | b :: bs => C.mix (C.dec b) iv :: cbcDec b bs

@[simp] theorem length_cbcEnc (iv : β) (bs : List β) :
    (C.cbcEnc iv bs).length = bs.length := by
  induction bs generalizing iv with
  | nil => rfl
  | cons b bs ih => simp [cbcEnc, ih]

@[simp] theorem length_cbcDec (iv : β) (bs : List β) :
    (C.cbcDec iv bs).length = bs.length := by
  induction bs generalizing iv with
  | nil => rfl
  | cons b bs ih => simp [cbcDec, ih]

/-- The encrypting direction undoes the decrypting one. -/
theorem cbcEnc_cbcDec (iv : β) (bs : List β) :
    C.cbcEnc iv (C.cbcDec iv bs) = bs := by
  induction bs generalizing iv with
  | nil => rfl
  | cons b bs ih => simp [cbcEnc, cbcDec, C.mix_mix, C.enc_dec, ih]

/-- And the other way round. -/
theorem cbcDec_cbcEnc (iv : β) (bs : List β) :
    C.cbcDec iv (C.cbcEnc iv bs) = bs := by
  induction bs generalizing iv with
  | nil => rfl
  | cons b bs ih => simp [cbcEnc, cbcDec, C.mix_mix, C.dec_enc, ih]

/-- The block the next block is chained to. -/
theorem cbcDec_append (iv : β) (first second : List β) :
    C.cbcDec iv (first ++ second) =
      C.cbcDec iv first ++ C.cbcDec (first.getLastD iv) second := by
  induction first generalizing iv with
  | nil => rfl
  | cons b bs ih =>
      have hlast : (b :: bs).getLastD iv = bs.getLastD b := by
        cases bs <;> rfl
      rw [List.cons_append, cbcDec, cbcDec, ih, hlast, List.cons_append]

/-! ## When the two directions give the same -/

def Meets (x y z : β) : Prop :=
  C.dec (C.mix (C.dec z) y) = C.mix z (C.mix (C.dec y) x)

def AllMeet : List β → Prop
  | x :: y :: z :: rest => C.Meets x y z ∧ AllMeet (y :: z :: rest)
  | _ => True

theorem mix_right_injective {x y z : β} (h : C.mix x y = C.mix x z) : y = z := by
  rw [C.mix_comm x y, C.mix_comm x z] at h
  have hcancel := congrArg (fun b => C.mix b x) h
  simpa [C.mix_mix] using hcancel

theorem enc_eq_iff {x y : β} : C.enc x = y ↔ C.dec y = x := by
  constructor
  · rintro rfl
    exact C.dec_enc x
  · rintro rfl
    exact C.enc_dec y

/-- Behind a first block, both directions agree as long as blocks meet. -/
theorem cbcDec_eq_cbcEnc_tail (x y : β) (bs : List β) :
    C.cbcDec y bs = C.cbcEnc (C.mix (C.dec y) x) bs ↔ C.AllMeet (x :: y :: bs) := by
  induction bs generalizing x y with
  | nil => simp [cbcDec, cbcEnc, AllMeet]
  | cons z bs ih =>
      rw [cbcDec, cbcEnc, AllMeet, List.cons.injEq]
      have hhead : C.mix (C.dec z) y = C.enc (C.mix z (C.mix (C.dec y) x)) ↔
          C.Meets x y z := by
        rw [eq_comm, C.enc_eq_iff, Meets]
      rw [hhead]
      refine and_congr_right fun hmeets => ?_
      rw [← hhead.mpr hmeets, ih]

theorem cbcDec_eq_cbcEnc (iv b : β) (bs : List β) :
    C.cbcDec iv (b :: bs) = C.cbcEnc iv (b :: bs) ↔
      C.dec (C.mix (C.dec b) iv) = C.mix b iv ∧ C.AllMeet (iv :: b :: bs) := by
  rw [cbcDec, cbcEnc, List.cons.injEq]
  have hhead : C.mix (C.dec b) iv = C.enc (C.mix b iv) ↔
      C.dec (C.mix (C.dec b) iv) = C.mix b iv := by
    rw [eq_comm, C.enc_eq_iff]
  rw [hhead]
  refine and_congr_right fun hfirst => ?_
  rw [← hhead.mpr hfirst, C.cbcDec_eq_cbcEnc_tail]

/-- Two initial blocks cannot both meet what follows them. -/
theorem eq_of_meets {x x' y z : β} (h : C.Meets x y z) (h' : C.Meets x' y z) : x = x' := by
  have heq := h.symm.trans h'
  exact C.mix_right_injective (C.mix_right_injective heq)

end BlockCipher

/-! ## Bytes and blocks -/

section Blocks

variable {size : Nat}

/-- Cut the first `count` blocks off a byte string. -/
def toBlocks (size : Nat) : Nat → List UInt8 → List (Vector UInt8 size)
  | 0, _ => []
  | count + 1, bytes =>
      Vector.ofFn (fun i => bytes.getD i 0) :: toBlocks size count (bytes.drop size)

def ofBlocks (blocks : List (Vector UInt8 size)) : List UInt8 :=
  blocks.flatMap Vector.toList

@[simp] theorem length_toBlocks (count : Nat) (bytes : List UInt8) :
    (toBlocks size count bytes).length = count := by
  induction count generalizing bytes with
  | zero => rfl
  | succ count ih => simp [toBlocks, ih]

@[simp] theorem ofBlocks_append (first second : List (Vector UInt8 size)) :
    ofBlocks (first ++ second) = ofBlocks first ++ ofBlocks second := by
  simp [ofBlocks]

@[simp] theorem length_ofBlocks (blocks : List (Vector UInt8 size)) :
    (ofBlocks blocks).length = size * blocks.length := by
  induction blocks with
  | nil => rfl
  | cons b bs ih =>
      have hcons : ofBlocks (b :: bs) = b.toList ++ ofBlocks bs := rfl
      rw [hcons, List.length_append, ih, Vector.length_toList, List.length_cons]
      ring

theorem toList_first (bytes : List UInt8) (h : size ≤ bytes.length) :
    (Vector.ofFn (n := size) fun i => bytes.getD i 0).toList = bytes.take size := by
  apply List.ext_getElem
  · simp [h]
  · intro i hi hi'
    have hlt : i < bytes.length := by
      simp only [List.length_take] at hi'
      omega
    simp [List.getD, hlt]

theorem ofBlocks_toBlocks {count : Nat} {bytes : List UInt8}
    (h : bytes.length = size * count) : ofBlocks (toBlocks size count bytes) = bytes := by
  induction count generalizing bytes with
  | zero =>
      have hnil : bytes = [] := List.eq_nil_of_length_eq_zero (by simpa using h)
      rw [hnil]
      rfl
  | succ count ih =>
      have hcons : ofBlocks (toBlocks size (count + 1) bytes) =
          (Vector.ofFn (n := size) fun i => bytes.getD i 0).toList ++
            ofBlocks (toBlocks size count (bytes.drop size)) := rfl
      have hlength : (bytes.drop size).length = size * count := by
        rw [List.length_drop, h, Nat.mul_succ]
        omega
      have hsize : size ≤ bytes.length := by
        rw [h, Nat.mul_succ]
        omega
      rw [hcons, ih hlength, toList_first bytes hsize, List.take_append_drop]

theorem ofBlocks_injective {first second : List (Vector UInt8 size)}
    (hlength : first.length = second.length) (h : ofBlocks first = ofBlocks second) :
    first = second := by
  induction first generalizing second with
  | nil => exact (List.eq_nil_of_length_eq_zero hlength.symm).symm
  | cons b bs ih =>
      cases second with
      | nil => cases hlength
      | cons b' bs' =>
          have hcons : b.toList ++ ofBlocks bs = b'.toList ++ ofBlocks bs' := h
          obtain ⟨hhead, htail⟩ := List.append_inj hcons (by simp)
          rw [Vector.toList_inj.mp hhead, ih (by simpa using hlength) htail]

theorem toBlocks_ofBlocks (blocks : List (Vector UInt8 size)) :
    toBlocks size blocks.length (ofBlocks blocks) = blocks :=
  ofBlocks_injective (by simp) (ofBlocks_toBlocks (by simp))

theorem toBlocks_append {count : Nat} {first : List UInt8}
    (h : first.length = size * count) (more : Nat) (second : List UInt8)
    (hsecond : second.length = size * more) :
    toBlocks size (count + more) (first ++ second) =
      toBlocks size count first ++ toBlocks size more second := by
  apply ofBlocks_injective
  · simp
  · rw [ofBlocks_append, ofBlocks_toBlocks h, ofBlocks_toBlocks hsecond,
      ofBlocks_toBlocks]
    rw [List.length_append, h, hsecond, Nat.mul_add]

end Blocks

end Butterfly.Foundation

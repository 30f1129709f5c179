import Mathlib

/-!
# Decimal texts between separators

A text made of fields with a separator after each can be read back field by field
if no field holds its separator.  A negative number starts with a minus sign, and
the sign may be the separator as well: a number never starts with its separator
twice, so it can still be read back.
-/

namespace Butterfly.Foundation

theorem toString_nat_chars {n : Nat} {c : Char} (hc : c ∈ (toString n).toList) :
    c.isDigit = true := by
  rw [Nat.toString_eq_repr, Nat.toList_repr] at hc
  exact Nat.isDigit_of_mem_toDigits (by decide) (by decide) hc

theorem toString_nat_injective {m n : Nat} (h : (toString m).toList = (toString n).toList) :
    m = n := by
  rw [Nat.toString_eq_repr, Nat.toString_eq_repr, Nat.toList_repr, Nat.toList_repr] at h
  rw [← @Nat.ofDigitChars_ten_toDigits m, h, Nat.ofDigitChars_ten_toDigits]

/-- A field and the separator that it does not hold. -/
theorem field_eq {a b x y : List Char} {c : Char} (ha : c ∉ a) (hb : c ∉ b)
    (h : a ++ c :: x = b ++ c :: y) : a = b ∧ x = y := by
  induction a generalizing b with
  | nil =>
      cases b with
      | nil => exact ⟨rfl, (List.cons.inj h).2⟩
      | cons d b => exact absurd ((List.cons.inj h).1 ▸ List.mem_cons_self) hb
  | cons d a ih =>
      cases b with
      | nil => exact absurd ((List.cons.inj h).1 ▸ List.mem_cons_self) ha
      | cons e b =>
          obtain ⟨rfl, htail⟩ := List.cons.inj h
          obtain ⟨rfl, hrest⟩ := ih (List.not_mem_of_not_mem_cons ha)
            (List.not_mem_of_not_mem_cons hb) htail
          exact ⟨rfl, hrest⟩

theorem nat_field_eq {m n : Nat} {x y : List Char} {c : Char} (hc : c.isDigit = false)
    (h : (toString m).toList ++ c :: x = (toString n).toList ++ c :: y) : m = n ∧ x = y := by
  have hnot : ∀ k : Nat, c ∉ (toString k).toList := by
    intro k hmem
    rw [toString_nat_chars hmem] at hc
    cases hc
  obtain ⟨hfield, hrest⟩ := field_eq (hnot m) (hnot n) h
  exact ⟨toString_nat_injective hfield, hrest⟩

/-- The text of a natural number does not start with the minus sign. -/
theorem toString_nat_head {n : Nat} {x y : List Char} :
    (toString n).toList ++ x ≠ '-' :: y := by
  intro h
  have hne : (toString n).toList ≠ [] := by
    rw [Nat.toString_eq_repr, Nat.toList_repr]
    exact Nat.toDigits_ne_nil
  obtain ⟨d, ds, hds⟩ := List.exists_cons_of_ne_nil hne
  rw [hds, List.cons_append] at h
  have hdigit : d.isDigit = true := by
    apply toString_nat_chars (n := n)
    rw [hds]
    exact List.mem_cons_self
  rw [List.cons.inj h |>.1] at hdigit
  exact absurd hdigit (by decide)

theorem toString_int_cases (i : Int) :
    (∃ n : Nat, i = n ∧ (toString i).toList = (toString n).toList) ∨
      ∃ n : Nat, i = -(n : Int) ∧ (toString i).toList = '-' :: (toString n).toList := by
  cases i with
  | ofNat n => exact .inl ⟨n, rfl, rfl⟩
  | negSucc n =>
      refine .inr ⟨n + 1, rfl, ?_⟩
      have htext : toString (Int.negSucc n) = "-" ++ toString (n + 1) := rfl
      rw [htext, String.toList_append]
      rfl

/-- A number is read back although the separator is the minus sign. -/
theorem int_field_eq {i j : Int} {x y : List Char}
    (h : (toString i).toList ++ '-' :: x = (toString j).toList ++ '-' :: y) :
    i = j ∧ x = y := by
  have hminus : '-'.isDigit = false := by decide
  rcases toString_int_cases i with ⟨m, rfl, hm⟩ | ⟨m, rfl, hm⟩
  · rcases toString_int_cases j with ⟨n, rfl, hn⟩ | ⟨n, rfl, hn⟩
    · rw [hm, hn] at h
      obtain ⟨rfl, hrest⟩ := nat_field_eq hminus h
      exact ⟨rfl, hrest⟩
    · rw [hm, hn] at h
      exact absurd h toString_nat_head
  · rcases toString_int_cases j with ⟨n, rfl, hn⟩ | ⟨n, rfl, hn⟩
    · rw [hm, hn] at h
      exact absurd h.symm toString_nat_head
    · rw [hm, hn, List.cons_append, List.cons_append] at h
      obtain ⟨rfl, hrest⟩ := nat_field_eq hminus (List.cons.inj h).2
      exact ⟨rfl, hrest⟩

end Butterfly.Foundation

import Mathlib

/-!
# Ordered maps

`std::map` is `Std.ExtTreeMap`: two maps with the same entries are equal and the
entries are listed in the order of the keys.  The lookup lemmas of the library
speak of `compare`; here they speak of equality of keys.
-/

namespace Butterfly.Foundation

open Std

set_option linter.unusedSectionVars false

variable {κ β : Type} [Ord κ] [TransOrd κ] [LawfulEqOrd κ]

def mapValues (m : ExtTreeMap κ β) : List β := m.toList.map Prod.snd

/-! ## Lookups -/

section Lookup

variable [DecidableEq κ] (m : ExtTreeMap κ β) (k a : κ) (v : β)

theorem lookup_insert :
    (m.insert k v)[a]? = if k = a then some v else m[a]? := by
  simp [ExtTreeMap.getElem?_insert]

theorem lookup_erase : (m.erase k)[a]? = if k = a then none else m[a]? := by
  simp [ExtTreeMap.getElem?_erase]

theorem lookup_insertIfNew :
    (m.insertIfNew k v)[a]? =
      if k = a then some (m[k]?.getD v) else m[a]? := by
  rw [ExtTreeMap.getElem?_insertIfNew]
  by_cases ha : k = a
  · subst ha
    cases hk : m[k]? <;> simp [ExtTreeMap.mem_iff_isSome_getElem?, hk]
  · simp [ha]

theorem lookup_modify (f : β → β) :
    (m.modify k f)[a]? = if k = a then m[k]?.map f else m[a]? := by
  simp [ExtTreeMap.getElem?_modify]

theorem modify_erase (f : β → β) : (m.modify k f).erase k = m.erase k := by
  apply ExtTreeMap.ext_getElem?
  intro a
  simp only [lookup_erase, lookup_modify]
  split <;> rfl

theorem erase_of_none {m : ExtTreeMap κ β} {k : κ} (h : m[k]? = none) :
    m.erase k = m := by
  apply ExtTreeMap.ext_getElem?
  intro a
  rw [lookup_erase]
  split
  · next ha => rw [← ha, h]
  · rfl

theorem insert_insert (w : β) : (m.insert k v).insert k w = m.insert k w := by
  apply ExtTreeMap.ext_getElem?
  intro a
  simp only [lookup_insert]
  split <;> rfl

theorem insert_of_lookup {m : ExtTreeMap κ β} {k : κ} {v : β} (h : m[k]? = some v) :
    m.insert k v = m := by
  apply ExtTreeMap.ext_getElem?
  intro a
  rw [lookup_insert]
  split
  · next ha => rw [← ha, h]
  · rfl

theorem insertIfNew_of_lookup {m : ExtTreeMap κ β} {k : κ} {v w : β} (h : m[k]? = some w) :
    m.insertIfNew k v = m := by
  apply ExtTreeMap.ext_getElem?
  intro a
  rw [lookup_insertIfNew]
  split
  · next ha => rw [← ha, h, Option.getD_some]
  · rfl

theorem modify_modify (f g : β → β) :
    (m.modify k f).modify k g = m.modify k fun v => g (f v) := by
  apply ExtTreeMap.ext_getElem?
  intro a
  simp only [lookup_modify, if_true, Option.map_map]
  split <;> rfl

end Lookup

/-! ## Values -/

theorem mem_mapValues {m : ExtTreeMap κ β} {v : β} :
    v ∈ mapValues m ↔ ∃ k : κ, m[k]? = some v := by
  simp [mapValues, ExtTreeMap.mem_toList_iff_getElem?_eq_some]

@[simp] theorem length_mapValues (m : ExtTreeMap κ β) :
    (mapValues m).length = m.size := by
  simp [mapValues, ExtTreeMap.length_toList]

@[simp] theorem mapValues_empty : mapValues (∅ : ExtTreeMap κ β) = [] := by
  simp [mapValues]

theorem size_eq_zero_iff {m : ExtTreeMap κ β} : m.size = 0 ↔ ∀ k : κ, m[k]? = none := by
  rw [← ExtTreeMap.eq_empty_iff_size_eq_zero]
  constructor
  · rintro rfl k
    exact ExtTreeMap.getElem?_empty
  · intro h
    exact ExtTreeMap.ext_getElem? fun k => by
      rw [h k, ExtTreeMap.getElem?_empty]

theorem size_pos_of_lookup {m : ExtTreeMap κ β} {k : κ} {v : β}
    (h : m[k]? = some v) : 0 < m.size := by
  apply Nat.pos_of_ne_zero
  intro hzero
  rw [size_eq_zero_iff] at hzero
  simp [hzero k] at h

theorem size_erase_of_lookup {m : ExtTreeMap κ β} {k : κ} {v : β}
    (h : m[k]? = some v) : (m.erase k).size = m.size - 1 := by
  have hmem : k ∈ m := by simp [ExtTreeMap.mem_iff_isSome_getElem?, h]
  rw [ExtTreeMap.size_erase, if_pos (ExtTreeMap.mem_iff_contains.mp hmem)]

theorem size_insertIfNew_of_none {m : ExtTreeMap κ β} {k : κ} {v : β}
    (h : m[k]? = none) : (m.insertIfNew k v).size = m.size + 1 := by
  have hmem : k ∉ m := by simp [ExtTreeMap.mem_iff_isSome_getElem?, h]
  rw [ExtTreeMap.size_insertIfNew, if_neg hmem]

/-- The values stand in the list in the order of their keys, each once. -/
theorem exists_keys (m : ExtTreeMap κ β) :
    ∃ entries : List (κ × β), mapValues m = entries.map Prod.snd ∧
      (entries.map Prod.fst).Nodup ∧ entries.length = m.size ∧
      ∀ k v, (k, v) ∈ entries ↔ m[k]? = some v := by
  refine ⟨m.toList, rfl, ?_, ExtTreeMap.length_toList, fun k v =>
    ExtTreeMap.mem_toList_iff_getElem?_eq_some⟩
  rw [List.Nodup, List.pairwise_map]
  apply List.Pairwise.imp _ m.distinct_keys_toList
  intro a b hab heq
  exact hab (by rw [heq, compare_self])

/-- The value of a key that is below all others comes first. -/
theorem mapValues_of_least {m : ExtTreeMap κ β} {k : κ} {v : β} (h : m[k]? = some v)
    (hleast : ∀ a : κ, compare a k ≠ .lt) : ∃ rest, mapValues m = v :: rest := by
  have hmem : (k, v) ∈ m.toList := ExtTreeMap.mem_toList_iff_getElem?_eq_some.mpr h
  have hordered := m.ordered_keys_toList
  rw [mapValues]
  cases hlist : m.toList with
  | nil => simp [hlist] at hmem
  | cons first rest =>
      rw [hlist] at hmem hordered
      rcases List.mem_cons.mp hmem with rfl | hrest
      · exact ⟨rest.map Prod.snd, rfl⟩
      · exact absurd ((List.pairwise_cons.mp hordered).1 _ hrest) (hleast first.1)

/-- A map with one entry. -/
theorem exists_of_size_one {m : ExtTreeMap κ β} (h : m.size = 1) :
    ∃ k v, mapValues m = [v] ∧ ∀ (a : κ) (b : β), m[a]? = some b ↔ a = k ∧ b = v := by
  obtain ⟨entries, hvalues, -, hlength, hmem⟩ := exists_keys m
  rw [h] at hlength
  obtain ⟨⟨k, v⟩, rfl⟩ := List.length_eq_one_iff.mp hlength
  refine ⟨k, v, by simpa using hvalues, fun a b => ?_⟩
  rw [← hmem a b]
  simp

/-- A map with two entries, the first in key order named first. -/
theorem exists_of_size_two {m : ExtTreeMap κ β} (h : m.size = 2) :
    ∃ k v k' v', mapValues m = [v, v'] ∧ k ≠ k' ∧
      ∀ (a : κ) (b : β), m[a]? = some b ↔ a = k ∧ b = v ∨ a = k' ∧ b = v' := by
  obtain ⟨entries, hvalues, hnodup, hlength, hmem⟩ := exists_keys m
  rw [h] at hlength
  obtain ⟨⟨k, v⟩, ⟨k', v'⟩, rfl⟩ := List.length_eq_two.mp hlength
  refine ⟨k, v, k', v', by simpa using hvalues, by simpa using hnodup, fun a b => ?_⟩
  rw [← hmem a b]
  simp

/-- A map with two entries or more has two keys. -/
theorem two_le_size_iff {m : ExtTreeMap κ β} :
    2 ≤ m.size ↔ ∃ k k' : κ, k ≠ k' ∧ (∃ v, m[k]? = some v) ∧ ∃ v, m[k']? = some v := by
  constructor
  · intro h
    obtain ⟨entries, -, hnodup, hlength, hmem⟩ := exists_keys m
    match entries with
    | [] => simp at hlength; omega
    | [_] => simp at hlength; omega
    | (k, v) :: (k', v') :: rest =>
        refine ⟨k, k', ?_, ⟨v, (hmem k v).mp (by simp)⟩, v', (hmem k' v').mp (by simp)⟩
        rintro rfl
        simp at hnodup
  · rintro ⟨k, k', hne, ⟨v, hv⟩, v', hv'⟩
    have hone := size_erase_of_lookup hv
    have hrest : (m.erase k)[k']? = some v' := by
      simp [ExtTreeMap.getElem?_erase, hne, hv']
    have hpos := size_pos_of_lookup hrest
    omega

/-! ## Maps of maps -/

section Nested

variable {ι γ : Type} [Ord ι] [TransOrd ι] [LawfulEqOrd ι] (f : β → ExtTreeMap ι γ)
  (m : ExtTreeMap κ β)

def nested : List ((κ × ι) × γ) :=
  m.toList.flatMap fun outer =>
    (f outer.2).toList.map fun inner => ((outer.1, inner.1), inner.2)

theorem mem_nested {k : κ} {i : ι} {c : γ} :
    ((k, i), c) ∈ nested f m ↔ ∃ b, m[k]? = some b ∧ (f b)[i]? = some c := by
  simp only [nested, List.mem_flatMap, List.mem_map, Prod.exists, Prod.mk.injEq,
    ExtTreeMap.mem_toList_iff_getElem?_eq_some]
  constructor
  · rintro ⟨k', b, hb, i', c', hc, ⟨rfl, rfl⟩, rfl⟩
    exact ⟨b, hb, hc⟩
  · rintro ⟨b, hb, hc⟩
    exact ⟨k, b, hb, i, c, hc, ⟨rfl, rfl⟩, rfl⟩

theorem values_nested :
    (nested f m).map Prod.snd = (mapValues m).flatMap fun b => mapValues (f b) := by
  simp [nested, mapValues, List.map_flatMap, List.flatMap_map, Function.comp_def]

theorem length_nested :
    (nested f m).length = ((mapValues m).map fun b => (f b).size).sum := by
  rw [← List.length_map Prod.snd, values_nested]
  simp [List.length_flatMap]

def Precedes (a b : κ × ι) : Prop :=
  compare a.1 b.1 = .lt ∨ a.1 = b.1 ∧ compare a.2 b.2 = .lt

theorem Precedes.asymm {a b : κ × ι} (h : Precedes a b) : ¬Precedes b a := by
  rintro (h' | ⟨heq, h'⟩)
  · rcases h with h | ⟨heq, -⟩
    · exact OrientedCmp.not_lt_of_lt h h'
    · rw [heq, compare_self] at h'
      cases h'
  · rcases h with h | ⟨-, h⟩
    · rw [heq, compare_self] at h
      cases h
    · exact OrientedCmp.not_lt_of_lt h h'

theorem nested_ordered : (nested f m).Pairwise fun a b => Precedes a.1 b.1 := by
  rw [nested, List.pairwise_flatMap]
  constructor
  · rintro ⟨k, b⟩ -
    rw [List.pairwise_map]
    exact (f b).ordered_keys_toList.imp fun h => .inr ⟨rfl, h⟩
  · refine m.ordered_keys_toList.imp fun h => ?_
    simp only [List.mem_map]
    rintro _ ⟨inner, -, rfl⟩ _ ⟨inner', -, rfl⟩
    exact .inl h

/-- Lists in this order that have the same entries are equal. -/
theorem eq_of_precedes {δ : Type} {l l' : List ((κ × ι) × δ)}
    (hl : l.Pairwise fun a b => Precedes a.1 b.1)
    (hl' : l'.Pairwise fun a b => Precedes a.1 b.1) (h : ∀ e, e ∈ l ↔ e ∈ l') : l = l' := by
  have hnodup : ∀ {l : List ((κ × ι) × δ)}, l.Pairwise (fun a b => Precedes a.1 b.1) →
      l.Nodup := by
    intro l hl
    refine hl.imp fun hab heq => ?_
    rw [heq] at hab
    exact hab.asymm hab
  refine ((List.perm_ext_iff_of_nodup (hnodup hl) (hnodup hl')).mpr h).eq_of_pairwise
    (fun a b _ _ hab hba => absurd hba hab.asymm) hl hl'

end Nested

end Butterfly.Foundation

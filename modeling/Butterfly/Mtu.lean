import Mathlib.Tactic.Linarith
import Mathlib.Data.Int.Basic

/-!
# The search for the largest MTU

The branch of `Graph::SetConfigMtu` for the option value `max`.  Which values the NIC takes
is up to `pg_nic_set_mtu`; a call that fails leaves the MTU as it is.
-/

namespace Butterfly.Graph

/-- `pg_nic_set_mtu`, the argument of which is a `uint16_t`. -/
def pgNicSetMtu (accepts : UInt16 → Bool) (m : Int) (mtu : UInt16) : Bool × UInt16 :=
  if accepts (UInt16.ofInt m) then (true, UInt16.ofInt m) else (false, mtu)

structure MtuSearch where
  min : Int := 1400
  max : Int := 65536
  /-- The MTU of the NIC. -/
  mtu : UInt16

variable (accepts : UInt16 → Bool)

def MtuSearch.middle (x : MtuSearch) : Int := (x.min + x.max).tdiv 2

def MtuSearch.step (x : MtuSearch) : MtuSearch :=
  match pgNicSetMtu accepts x.middle x.mtu with
  | (false, mtu) => { x with max := x.middle, mtu := mtu }
  | (true, mtu) => { x with min := x.middle, mtu := mtu }

/-- The loop, or `none` if it has not come to its end after so many rounds. -/
def MtuSearch.run : Nat → MtuSearch → Option MtuSearch
  | rounds, x =>
      if x.min = x.max - 1 then some x
      else match rounds with
        | 0 => none
        | rounds + 1 => MtuSearch.run rounds (x.step accepts)

def setMaxMtu (rounds : Nat) (mtu : UInt16) : Option (Except String String × UInt16) :=
  (MtuSearch.run accepts rounds { mtu := mtu }).map fun x =>
    match pgNicSetMtu accepts x.min x.mtu with
    | (false, mtu) => (.error "failed to find minimal supported MTU", mtu)
    | (true, mtu) => (.ok ("found maximal MTU of " ++ toString x.min), mtu)

/-! ## The interval -/

variable {accepts} {x : MtuSearch} {mtu : UInt16}

/-- The lower end was accepted and the upper end refused, if they were tried. -/
structure MtuSearch.Narrow (accepts : UInt16 → Bool) (mtu : UInt16) (x : MtuSearch) :
    Prop where
  lower : 1400 ≤ x.min
  ordered : x.min < x.max
  upper : x.max ≤ 65536
  min : x.min = 1400 ∨ accepts (UInt16.ofInt x.min) = true
  max : x.max = 65536 ∨ accepts (UInt16.ofInt x.max) = false
  mtu : x.mtu = mtu ∨ accepts x.mtu = true

theorem MtuSearch.middle_bounds (hlower : 1400 ≤ x.min) (hordered : x.min < x.max)
    (hguard : x.min ≠ x.max - 1) :
    x.min < x.middle ∧ x.middle < x.max ∧ 2 * x.middle ≤ x.min + x.max ∧
      x.min + x.max ≤ 2 * x.middle + 1 := by
  unfold MtuSearch.middle
  rw [Int.tdiv_eq_ediv_of_nonneg (by omega)]
  omega

theorem MtuSearch.Narrow.step (h : x.Narrow accepts mtu) (hguard : x.min ≠ x.max - 1) :
    (x.step accepts).Narrow accepts mtu ∧
      2 * ((x.step accepts).max - (x.step accepts).min) ≤ x.max - x.min + 1 := by
  obtain ⟨hlow, hhigh, hle, hge⟩ := middle_bounds h.lower h.ordered hguard
  have hlower := h.lower
  have hupper := h.upper
  unfold MtuSearch.step pgNicSetMtu
  cases haccepts : accepts (UInt16.ofInt x.middle) with
  | false =>
      exact ⟨⟨h.lower, hlow, by simp; omega, h.min, .inr haccepts, h.mtu⟩, by simp; omega⟩
  | true =>
      exact ⟨⟨by simp; omega, hhigh, h.upper, .inr haccepts, h.max, .inr haccepts⟩,
        by simp; omega⟩

theorem MtuSearch.Narrow.run (h : x.Narrow accepts mtu) (rounds : Nat)
    (hrounds : x.max - x.min ≤ 2 ^ rounds) :
    ∃ x', MtuSearch.run accepts rounds x = some x' ∧ x'.Narrow accepts mtu ∧
      x'.min = x'.max - 1 := by
  induction rounds generalizing x with
  | zero =>
      have hordered := h.ordered
      have hend : x.min = x.max - 1 := by
        rw [pow_zero] at hrounds
        omega
      exact ⟨x, by rw [MtuSearch.run, if_pos hend], h, hend⟩
  | succ rounds ih =>
      by_cases hguard : x.min = x.max - 1
      · exact ⟨x, by rw [MtuSearch.run, if_pos hguard], h, hguard⟩
      · obtain ⟨hstep, hhalf⟩ := h.step hguard
        obtain ⟨x', hrun, hnarrow, hend⟩ := ih hstep (by
          rw [pow_succ] at hrounds
          omega)
        exact ⟨x', by rw [MtuSearch.run, if_neg hguard]; exact hrun, hnarrow, hend⟩

theorem MtuSearch.run_mono {rounds more : Nat} {x' : MtuSearch} (hmore : rounds ≤ more)
    (h : MtuSearch.run accepts rounds x = some x') : MtuSearch.run accepts more x = some x' := by
  induction rounds generalizing x more with
  | zero =>
      unfold MtuSearch.run at h ⊢
      split at h
      · next hend => rwa [if_pos hend]
      · cases h
  | succ rounds ih =>
      obtain ⟨more, rfl⟩ := Nat.exists_eq_add_of_le' hmore
      rw [← Nat.add_assoc] at hmore ⊢
      unfold MtuSearch.run at h ⊢
      split
      · next hend => rwa [if_pos hend] at h
      · next hguard =>
          rw [if_neg hguard] at h
          exact ih (Nat.succ_le_succ_iff.mp hmore) h

/-! ## What the search finds -/

def AcceptsUpTo (accepts : UInt16 → Bool) (bound : Int) : Prop :=
  ∀ m : UInt16, 1400 ≤ m.toNat → (accepts m = true ↔ (m.toNat : Int) ≤ bound)

theorem toNat_ofInt {m : Int} (hlower : 0 ≤ m) (hupper : m < 65536) :
    ((UInt16.ofInt m).toNat : Int) = m := by
  have hmod : (m % 2 ^ 16).toNat < 2 ^ 16 := by omega
  rw [UInt16.ofInt, UInt16.toNat_ofNat_of_lt' hmod]
  omega

theorem accepts_ofInt_iff {bound m : Int} (h : AcceptsUpTo accepts bound) (hlower : 1400 ≤ m)
    (hupper : m < 65536) : accepts (UInt16.ofInt m) = true ↔ m ≤ bound := by
  have hvalue := toNat_ofInt (by omega) hupper
  rw [h _ (by omega), hvalue]

/-- What is known of the report and the MTU at the end. -/
structure Found (accepts : UInt16 → Bool) (mtu : UInt16)
    (result : Except String String × UInt16) : Prop where
  notRejected : result.2 = mtu ∨ accepts result.2 = true
  reached : ∀ {bound}, AcceptsUpTo accepts bound → 1400 ≤ bound →
    result.1.isOk = true ∧ (result.2.toNat : Int) = min bound 65535
  failed : ∀ {bound}, AcceptsUpTo accepts bound →
    (result.1.isOk = false ↔ bound < 1400)

theorem min_of_narrow {bound : Int} (h : x.Narrow accepts mtu) (hend : x.min = x.max - 1)
    (hbound : AcceptsUpTo accepts bound) : x.min = max 1400 (min bound 65535) := by
  have hlower := h.lower
  have hupper := h.upper
  have hmin : x.min = 1400 ∨ x.min ≤ bound :=
    h.min.imp_right (accepts_ofInt_iff hbound hlower (by omega)).mp
  have hmax : x.max = 65536 ∨ bound < x.max := by
    rcases hupper.lt_or_eq with hlast | hlast
    · refine h.max.imp_right fun hrefused => ?_
      by_contra hle
      have haccepted := (accepts_ofInt_iff hbound (by omega) hlast).mpr (not_lt.mp hle)
      rw [hrefused] at haccepted
      cases haccepted
    · exact .inl hlast
  omega

theorem found_of_narrow (h : x.Narrow accepts mtu) (hend : x.min = x.max - 1) :
    Found accepts mtu (match pgNicSetMtu accepts x.min x.mtu with
      | (false, mtu) => (.error "failed to find minimal supported MTU", mtu)
      | (true, mtu) => (.ok ("found maximal MTU of " ++ toString x.min), mtu)) := by
  have hlower := h.lower
  have hupper := h.upper
  have hvalue : ((UInt16.ofInt x.min).toNat : Int) = x.min := toNat_ofInt (by omega) (by omega)
  unfold pgNicSetMtu
  cases haccepts : accepts (UInt16.ofInt x.min) with
  | true =>
      refine ⟨.inr haccepts, fun hbound hreach => ⟨rfl, ?_⟩, fun hbound => ?_⟩
      · have hmin := min_of_narrow h hend hbound
        simp only [if_true, hvalue]
        omega
      · have hle := (accepts_ofInt_iff hbound hlower (by omega)).mp haccepts
        exact iff_of_false Bool.noConfusion (by omega)
  | false =>
      have hrefused : ∀ {bound}, AcceptsUpTo accepts bound → bound < 1400 := by
        intro bound hbound
        have hmin := min_of_narrow h hend hbound
        have hnot := mt (accepts_ofInt_iff hbound hlower (by omega)).mpr
          (Bool.not_eq_true _ ▸ haccepts)
        omega
      refine ⟨h.mtu, fun hbound hreach => ?_, fun hbound => ?_⟩
      · exact absurd (hrefused hbound) (not_lt.mpr hreach)
      · exact iff_of_true rfl (hrefused hbound)

/--
The search ends after at most sixteen rounds, whatever the NIC accepts, and finds the bound
if there is one.
-/
theorem max_mtu_search (accepts : UInt16 → Bool) (mtu : UInt16) :
    ∃ result, (∀ rounds, 16 ≤ rounds → setMaxMtu accepts rounds mtu = some result) ∧
      Found accepts mtu result := by
  have hstart : MtuSearch.Narrow accepts mtu { mtu := mtu } :=
    ⟨le_rfl, by show (1400 : Int) < 65536; omega, le_rfl, .inl rfl, .inl rfl, .inl rfl⟩
  obtain ⟨x, hrun, hnarrow, hend⟩ := hstart.run 16
    (by show (65536 - 1400 : Int) ≤ 2 ^ 16; norm_num)
  refine ⟨_, fun rounds hrounds => ?_, found_of_narrow hnarrow hend⟩
  rw [setMaxMtu, MtuSearch.run_mono hrounds hrun]
  rfl

end Butterfly.Graph

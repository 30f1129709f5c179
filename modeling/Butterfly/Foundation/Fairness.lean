import Mathlib

/-!
# Fair runs

Threads take turns on a shared state; a thread that has to wait leaves the state
alone.  A schedule says whose turn it is at each time, and it is fair if no
thread is passed over for ever.

The file gives the rule by which every fair run reaches a goal: no step raises
the rank of a state, and at each time there is a thread whose step lowers it and
which stays the one to do so until the rank is lower.
-/

namespace Butterfly.Foundation

variable {ι σ α : Type*}

def runFor (step : ι → σ → σ) (turns : ℕ → ι) (s : σ) : ℕ → σ
  | 0 => s
  | n + 1 => step (turns n) (runFor step turns s n)

@[simp] theorem runFor_zero (step : ι → σ → σ) (turns : ℕ → ι) (s : σ) :
    runFor step turns s 0 = s := rfl

theorem runFor_succ (step : ι → σ → σ) (turns : ℕ → ι) (s : σ) (n : ℕ) :
    runFor step turns s (n + 1) = step (turns n) (runFor step turns s n) := rfl

/-- Every thread has its turn again and again. -/
def Fair (turns : ℕ → ι) : Prop := ∀ i n, ∃ m ≥ n, turns m = i

/-- What every step keeps holds along every run. -/
theorem runFor_invariant {step : ι → σ → σ} {I : σ → Prop} (hkeep : ∀ i s, I s → I (step i s))
    (turns : ℕ → ι) {s : σ} (hs : I s) (n : ℕ) : I (runFor step turns s n) := by
  induction n with
  | zero => exact hs
  | succ n ih => exact hkeep _ _ ih

/-- From a time on at which it holds, too. -/
theorem runFor_invariant_from {step : ι → σ → σ} {I : σ → Prop}
    (hkeep : ∀ i s, I s → I (step i s)) (turns : ℕ → ι) {s : σ} {n : ℕ}
    (hn : I (runFor step turns s n)) {m : ℕ} (hm : n ≤ m) : I (runFor step turns s m) := by
  induction m, hm using Nat.le_induction with
  | base => exact hn
  | succ m _ ih => exact hkeep _ _ ih

/--
In a state that is not the goal, the step of the `helpful` thread lowers the
rank.  Any other step does so as well or leaves both as they are.
-/
structure Converges [LT α] (step : ι → σ → σ) (I goal : σ → Prop) (rank : σ → α)
    (helpful : σ → ι) : Prop where
  keeps : ∀ i s, I s → I (step i s)
  stays : ∀ i s, I s → ¬goal s → rank (step i s) < rank s ∨
    rank (step i s) = rank s ∧ helpful (step i s) = helpful s
  helps : ∀ s, I s → ¬goal s → rank (step (helpful s) s) < rank s

namespace Converges

variable [LT α] {step : ι → σ → σ} {I goal : σ → Prop} {rank : σ → α} {helpful : σ → ι}
  {turns : ℕ → ι} {s : σ}

/-- As long as neither happens, the helpful thread stays the same. -/
theorem waits (h : Converges step I goal rank helpful) (hs : I s) {n m : ℕ} (hm : n ≤ m)
    (hnone : ∀ k, n ≤ k → k ≤ m → ¬goal (runFor step turns s k) ∧
      ¬rank (runFor step turns s k) < rank (runFor step turns s n)) :
    rank (runFor step turns s m) = rank (runFor step turns s n) ∧
      helpful (runFor step turns s m) = helpful (runFor step turns s n) := by
  induction m, hm using Nat.le_induction with
  | base => exact ⟨rfl, rfl⟩
  | succ m hm ih =>
      obtain ⟨hrank, hhelpful⟩ := ih fun k hk hkm => hnone k hk (by omega)
      have hgoal : ¬goal (runFor step turns s m) := (hnone m hm (by omega)).1
      have hlower := (hnone (m + 1) (by omega) le_rfl).2
      rcases h.stays (turns m) _ (runFor_invariant h.keeps turns hs m) hgoal with
        hless | ⟨hsame, hkept⟩
      · rw [hrank] at hless
        exact absurd hless hlower
      · exact ⟨hsame.trans hrank, hkept.trans hhelpful⟩

/-- The goal is reached, or the rank is lower some time later. -/
theorem lower (h : Converges step I goal rank helpful) (hfair : Fair turns) (hs : I s) (n : ℕ) :
    ∃ m, goal (runFor step turns s m) ∨
      rank (runFor step turns s m) < rank (runFor step turns s n) := by
  by_contra hnever
  push Not at hnever
  have hnone : ∀ k, ¬goal (runFor step turns s k) ∧
      ¬rank (runFor step turns s k) < rank (runFor step turns s n) := hnever
  obtain ⟨m, hm, hturn⟩ := hfair (helpful (runFor step turns s n)) n
  obtain ⟨hrank, hhelpful⟩ := h.waits hs hm fun k _ _ => hnone k
  have hless := h.helps _ (runFor_invariant h.keeps turns hs m) (hnone m).1
  rw [hhelpful, ← hturn, ← runFor_succ step turns, hrank] at hless
  exact (hnone (m + 1)).2 hless

/-- Every fair run reaches the goal. -/
theorem eventually [WellFoundedLT α] (h : Converges step I goal rank helpful)
    (hfair : Fair turns) (hs : I s) : ∃ n, goal (runFor step turns s n) := by
  suffices hfrom : ∀ a n, rank (runFor step turns s n) = a → ∃ m, goal (runFor step turns s m) from
    hfrom _ 0 rfl
  intro a
  induction a using WellFoundedLT.induction with
  | ind a ih =>
      intro n hn
      obtain ⟨m, hgoal | hless⟩ := h.lower hfair hs n
      · exact ⟨m, hgoal⟩
      · exact ih _ (hn ▸ hless) m rfl

/-- A goal that no step gives up is kept from some time on. -/
theorem eventually_always [WellFoundedLT α] (h : Converges step I goal rank helpful)
    (hkept : ∀ i s, I s → goal s → goal (step i s)) (hfair : Fair turns) (hs : I s) :
    ∃ n, ∀ m, n ≤ m → goal (runFor step turns s m) := by
  obtain ⟨n, hn⟩ := h.eventually hfair hs
  have hboth : I (runFor step turns s n) ∧ goal (runFor step turns s n) :=
    ⟨runFor_invariant h.keeps turns hs n, hn⟩
  exact ⟨n, fun m hm => (runFor_invariant_from (I := fun t => I t ∧ goal t)
    (fun i t ⟨hI, hgoal⟩ => ⟨h.keeps i t hI, hkept i t hI hgoal⟩) turns hboth hm).2⟩

end Converges

end Butterfly.Foundation

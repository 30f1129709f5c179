/-!
# Interleavings of steps

Agents take steps on a common state in any order.  A run keeps who moved and a view of the
state in which the step was taken.
-/

namespace Butterfly.Foundation

variable {ι α β : Type}

/-- The runs from `a₀`; the last step comes first in the trace. -/
inductive Interleaving (step : ι → α → α → Prop) (view : α → β) (a₀ : α) :
    List (β × ι) → α → Prop
  | start : Interleaving step view a₀ [] a₀
  | step {trace i a b} : Interleaving step view a₀ trace a → step i a b →
      Interleaving step view a₀ ((view a, i) :: trace) b

namespace Interleaving

variable {step : ι → α → α → Prop} {step' : ι → β → β → Prop} {view : α → β}
  {inv good : α → Prop} {a₀ : α}

/--
A run that ends well is one of the views, if steps keep the invariant and step between
views unless they end badly, and nothing that went wrong becomes good again.
-/
theorem refines {trace a} (h : Interleaving step view a₀ trace a) (h0 : inv a₀)
    (hback : ∀ i a b, step i a b → good b → good a)
    (hstep : ∀ i a b, inv a → step i a b → good b → inv b ∧ step' i (view a) (view b))
    (hgood : good a) : inv a ∧ Interleaving step' id (view a₀) trace (view a) := by
  induction h with
  | start => exact ⟨h0, .start⟩
  | step hrun hmove ih =>
      obtain ⟨hinv, hviews⟩ := ih (hback _ _ _ hmove hgood)
      obtain ⟨hinv', hmove'⟩ := hstep _ _ _ hinv hmove hgood
      exact ⟨hinv', .step hviews hmove'⟩

/-- A run of the views happens, if each of its steps does. -/
theorem realises {trace v} (h : Interleaving step' id (view a₀) trace v) (h0 : inv a₀)
    (hstep : ∀ i a v, inv a → step' i (view a) v → ∃ b, step i a b ∧ inv b ∧ view b = v) :
    ∃ a, Interleaving step view a₀ trace a ∧ inv a ∧ view a = v := by
  induction h with
  | start => exact ⟨a₀, .start, h0, rfl⟩
  | step _ hmove ih =>
      obtain ⟨a, hrun, hinv, rfl⟩ := ih
      obtain ⟨b, hmove', hinv', rfl⟩ := hstep _ _ _ hinv hmove
      exact ⟨b, .step hrun hmove', hinv', rfl⟩

end Interleaving

end Butterfly.Foundation

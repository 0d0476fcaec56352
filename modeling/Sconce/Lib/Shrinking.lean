/-
# Rewrites that shrink

A rewrite shrinks a measure when it changes a value only to one of a smaller measure.  Such
rewrites compose, and one after another they leave a value as it is exactly when each of them
does: what one has shrunk, none of the others brings back.
-/
import Mathlib.Order.Basic

/-- Every value that the rewrite changes becomes smaller. -/
def Shrinks {α β : Type*} [LT β] (μ : α → β) (f : α → α) : Prop :=
  ∀ x, f x = x ∨ μ (f x) < μ x

namespace Shrinks

variable {α β : Type*} [Preorder β] {μ : α → β} {f g : α → α}

theorem le (hf : Shrinks μ f) (x : α) : μ (f x) ≤ μ x := by
  obtain heq | hlt := hf x
  · exact (congrArg μ heq).le
  · exact hlt.le

theorem comp (hg : Shrinks μ g) (hf : Shrinks μ f) : Shrinks μ (g ∘ f) := by
  intro x
  obtain heq | hlt := hf x
  · change g (f x) = x ∨ μ (g (f x)) < μ x
    rw [heq]
    exact hg x
  · exact .inr ((hg.le (f x)).trans_lt hlt)

/-- What is left as it is by both in turn is left so by each. -/
theorem comp_eq_self_iff (hg : Shrinks μ g) (hf : Shrinks μ f) (x : α) :
    (g ∘ f) x = x ↔ f x = x ∧ g x = x := by
  constructor
  · intro h
    obtain heq | hlt := hf x
    · exact ⟨heq, by rwa [Function.comp_apply, heq] at h⟩
    · have hle := hg.le (f x)
      rw [← Function.comp_apply (f := g), h] at hle
      exact absurd hlt hle.not_gt
  · rintro ⟨hfx, hgx⟩
    rw [Function.comp_apply, hfx, hgx]

end Shrinks
